import DostReview.Engine.Signals
import DostReview.Library.Returns

/-!
# Python's coercions of JSON values

What `vendor/engine.py` applies to a stored state before it trusts any of it: truth, `int`,
`float` and hashing on a value of any shape, with the exceptions that each of them raises. How
`int` and `float` read a string is a parameter: nothing below depends on which strings they
accept.
-/
namespace DostReview.Engine

open Risk

/-- `x if isinstance(x, dict) else {}` -/
def asObject : Json → JsonObject
  | .obj entries => entries
  | _ => []

/-- `x if isinstance(x, list) else []` -/
def asList : Json → List Json
  | .arr items => items
  | _ => []

/-- A key of a dictionary that `json.dumps` has yet to write: any hashable value is one, and a
value that is no string is kept as the text it is written as. -/
inductive DictKey
  | str (s : String)
  | other (text : String)
  deriving DecidableEq

def DictKey.text : DictKey → String
  | .str s => s
  | .other text => text

def valueError : PyError := .other "ValueError"

def overflowError : PyError := .other "OverflowError"

/-- `except (TypeError, ValueError, OverflowError)` -/
abbrev Caught (e : PyError) : Prop := e ∈ [.typeError, valueError, overflowError]

/-- `try: body`, with the fallback where a caught error is raised. -/
def orElse {α : Type} (body : Except PyError α) (fallback : α) : Except PyError α :=
  match body with
  | .ok a => .ok a
  | .error e => if Caught e then .ok fallback else .error e

/-- The operations of `FloatOps` with the coercions, and with the overflows that Python raises
where IEEE would answer infinity. -/
structure PyOps extends FloatOps where
  ofValue : PyFloat → Float
  value : Float → PyFloat
  /-- `float(i)`; `none` is an `OverflowError` -/
  ofInt : ℤ → Option Float
  /-- `float(s)` and `int(s)`; `none` is a `ValueError` -/
  ofString : String → Option Float
  intOfString : String → Option ℤ
  /-- how `json.dumps` writes a float -/
  text : PyFloat → String
  nan : Float
  /-- `0.5 ** x` and `math.exp(x)` raise an `OverflowError` -/
  powOverflows : Float → Bool
  expOverflows : Float → Bool
  pow_ok : ∀ age half, lt (lit 0) age = true → 0 < half →
    powOverflows (div age (lit half)) = false
  exp_ok : ∀ x, lt (lit 0) x = false → expOverflows x = false
  mul_one : ∀ x, mul x (lit 1) = x
  add_halves : add (lit (1 / 2)) (lit (1 / 2)) = lit 1
  div_tenure : div (lit 14) (lit 14) = lit 1
  tenure_pos : lt (lit 0) (lit 14) = true
  lt_irrefl : ∀ x, lt x x = false
  /-- rounding is monotone: taking `o` from a positive number leaves at least `-o` -/
  sub_pos : ∀ x o, lt (lit 0) x = true → lt (sub x o) (sub (lit 0) o) = false
  add_neg : ∀ x o, lt x (sub (lit 0) o) = false → lt (add o x) (lit 0) = false
  div_neg : ∀ x q, lt x (lit 0) = false → 0 < q →
    lt (lit 0) (div (sub (lit 0) x) (lit q)) = false

/-- `rationalOps` with Python's coercions; it reads no strings, and its integers are all floats. -/
def rationalPyOps : PyOps where
  toFloatOps := rationalOps
  ofValue
    | .fin x => x
    | _ => (0 : ℚ)
  value x := .fin x
  ofInt i := some (i : ℚ)
  ofString _ := none
  intOfString _ := none
  text _ := ""
  nan := (0 : ℚ)
  powOverflows _ := false
  expOverflows _ := false
  pow_ok _ _ _ _ := rfl
  exp_ok _ _ := rfl
  mul_one := Rat.mul_one
  add_halves := show (1 / 2 : ℚ) + 1 / 2 = 1 by norm_num
  div_tenure := show (14 : ℚ) / 14 = 1 by norm_num
  tenure_pos := by decide
  lt_irrefl (x : ℚ) := show decide (x < x) = false by simp
  sub_pos (x o : ℚ) pos := show decide (x - o < 0 - o) = false by
    have pos : 0 < x := of_decide_eq_true pos
    simp only [decide_eq_false_iff_not, not_lt]
    linarith
  add_neg (x o : ℚ) least := show decide (o + x < 0) = false by
    have least : ¬x < 0 - o := of_decide_eq_false least
    simp only [decide_eq_false_iff_not, not_lt] at least ⊢
    linarith
  div_neg (x q : ℚ) least pos := show decide (0 < (0 - x) / q) = false by
    have least : ¬x < 0 := of_decide_eq_false least
    simp only [decide_eq_false_iff_not, not_lt] at least ⊢
    exact div_nonpos_of_nonpos_of_nonneg (by linarith) pos.le

section

variable (F : PyOps)

/-- `int(x)` -/
def pyInt : Json → Except PyError ℤ
  | .int i => .ok i
  | .bool b => .ok (if b then 1 else 0)
  -- the fraction is cut off
  | .float (.fin x) => .ok (Int.tdiv x.num x.den)
  | .float .nan => .error valueError
  | .float _ => .error overflowError
  | .str s => (F.intOfString s).elim (.error valueError) .ok
  | _ => .error .typeError

/-- `float(x)` -/
def pyFloat : Json → Except PyError F.Float
  | .float x => .ok (F.ofValue x)
  | .int i => (F.ofInt i).elim (.error overflowError) .ok
  | .bool b => .ok (F.lit (if b then 1 else 0))
  | .str s => (F.ofString s).elim (.error valueError) .ok
  | _ => .error .typeError

/-- `hash(x)`, giving the key: lists and objects have no hash. -/
def hashed : Json → Except PyError DictKey
  | .str s => .ok (.str s)
  | .null => .ok (.other "null")
  | .bool b => .ok (.other (if b then "true" else "false"))
  | .int i => .ok (.other (toString i))
  | .float x => .ok (.other (F.text x))
  | _ => .error .typeError

/-- `int(x or 0)` with its failures caught. -/
def countOf (x : Json) : Except PyError ℤ :=
  orElse (if truthy x then pyInt F x else .ok 0) 0

variable {F}

theorem orElse_returns {α : Type} {body : Except PyError α} (caught : body.RaisesOnly Caught)
    (fallback : α) : (orElse body fallback).Returns fun _ => True := by
  unfold orElse
  cases ran : body with
  | ok a => exact .ok trivial
  | error e =>
    simp only [if_pos (caught e ran)]
    exact .ok trivial

theorem raisesOnly_elim {α : Type} (x : Option α) {e : PyError} (caught : Caught e) :
    (x.elim (.error e) .ok : Except PyError α).RaisesOnly Caught := by
  cases x with
  | none => exact .error caught
  | some a => exact .ok a

theorem pyInt_raises (x : Json) : (pyInt F x).RaisesOnly Caught := by
  unfold pyInt
  split
  case h_6 s => exact raisesOnly_elim _ (by decide)
  all_goals first | exact .ok _ | exact .error (by decide)

theorem pyFloat_raises (x : Json) : (pyFloat F x).RaisesOnly Caught := by
  unfold pyFloat
  split
  case h_2 i => exact raisesOnly_elim _ (by decide)
  case h_4 s => exact raisesOnly_elim _ (by decide)
  all_goals first | exact .ok _ | exact .error (by decide)

theorem countOf_returns (x : Json) : (countOf F x).Returns fun _ => True := by
  refine orElse_returns ?_ 0
  split
  · exact pyInt_raises x
  · exact .ok 0

end

end DostReview.Engine
