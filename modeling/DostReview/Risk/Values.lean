import Mathlib.Algebra.Order.Field.Rat
import DostReview.Library.Dict

/-!
# Python values of the risk service

JSON values as `json.loads` builds them, floats up to what comparisons see, and
timestamps. `datetime.fromisoformat` and `isoformat` are parameters: nothing below
depends on which strings they accept or write.
-/
namespace DostReview.Risk

/-- A float by its exact value. -/
inductive PyFloat
  | fin (value : ℚ)
  | inf
  | negInf
  | nan

/-- `x >= bound` for a finite bound; every comparison with NaN is false. -/
def PyFloat.atLeast : PyFloat → ℚ → Bool
  | .fin value, bound => decide (bound ≤ value)
  | .inf, _ => true
  | .negInf, _ => false
  | .nan, _ => false

inductive Json
  | null
  | bool (b : Bool)
  | int (i : ℤ)
  | float (x : PyFloat)
  | str (s : String)
  | arr (items : List Json)
  | obj (entries : List (String × Json))

abbrev JsonObject := Dict String Json

/-- `isinstance(x, int)`, with the integer; booleans are integers in Python. -/
def Json.asInt : Json → Option ℤ
  | .int i => some i
  | .bool b => some (if b then 1 else 0)
  | _ => none

/-- The string, for `isinstance(x, str)`. -/
def asString : Json → Option String
  | .str s => some s
  | _ => none

/-- `bool(x)` -/
def truthy : Json → Bool
  | .null => false
  | .bool b => b
  | .int i => i ≠ 0
  | .float (.fin x) => x ≠ 0
  | .float _ => true
  | .str s => s ≠ ""
  | .arr items => items.length ≠ 0
  | .obj entries => entries.length ≠ 0

/-- `d.get(key)` -/
def field (d : JsonObject) (key : String) : Json := (Dict.get? d key).getD .null

inductive PyError
  | typeError
  | stopIteration
  | other (message : String)
  deriving DecidableEq

/-- An aware datetime: the instant in microseconds since the epoch, and its UTC offset. -/
structure DateTime where
  instant : ℤ
  offset : ℤ
  deriving DecidableEq

/-- `datetime.fromisoformat`, giving the wall clock in microseconds and the offset if the
string names one (`none` for a `ValueError`), and `datetime.isoformat`. -/
structure IsoFormat where
  fromisoformat : String → Option (ℤ × Option ℤ)
  isoformat : DateTime → String

/-- The characters `str.strip` removes. -/
def pySpaces : List Char :=
  [9, 10, 11, 12, 13, 28, 29, 30, 31, 32, 133, 160, 5760, 8192, 8193, 8194, 8195, 8196, 8197,
    8198, 8199, 8200, 8201, 8202, 8232, 8233, 8239, 8287, 12288].map Char.ofNat

def pyStrip (s : String) : String :=
  String.ofList
    ((s.toList.dropWhile (· ∈ pySpaces)).reverse.dropWhile (· ∈ pySpaces)).reverse

/-- `s.replace("Z", "+00:00")` -/
def replaceZulu (s : String) : String :=
  String.ofList (s.toList.flatMap fun c => if c = 'Z' then "+00:00".toList else [c])

/-- `_parse_iso`: blank and unreadable strings give `None`, a naive timestamp is UTC. -/
def parseIso (iso : IsoFormat) (ts : String) : Option DateTime :=
  if pyStrip ts = "" then none
  else
    (iso.fromisoformat (replaceZulu (pyStrip ts))).map fun (wall, offset) =>
      ⟨wall - offset.getD 0, offset.getD 0⟩

def days (n : ℤ) : ℤ := n * 86400 * 1000000

end DostReview.Risk
