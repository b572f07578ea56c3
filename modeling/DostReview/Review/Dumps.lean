import DostReview.Library.JsonText
import DostReview.Risk.Values

/-!
# `json.dumps`

The text that Python writes for a JSON value, as tokens, and what a JSONB column takes of it.
Python writes words for the floats that JSON has no numbers for.
-/
namespace DostReview.Review

open Risk (Json PyFloat JsonObject)
open JsonText

/-- U+0000, which no TEXT and no JSONB value holds. -/
def nul : Char := Char.ofNat 0

def noNul (s : String) : Bool := nul ∉ s.toList

section

variable (repr : ℚ → String)

/-- `float.__repr__` as `json.dumps` uses it; `repr` writes the finite floats. -/
def floatToken : PyFloat → Token
  | .fin x => .num (repr x)
  | .inf => .word "Infinity"
  | .negInf => .word "-Infinity"
  | .nan => .word "NaN"

mutual

def dumps : Json → List Token
  | .null => [.word "null"]
  | .bool b => [.word (if b then "true" else "false")]
  | .int i => [.num (toString i)]
  | .float x => [floatToken repr x]
  | .str s => [.str s]
  | .arr items => array (dumpsItems items)
  | .obj entries => object (dumpsEntries entries)

def dumpsItems : List Json → List (List Token)
  | [] => []
  | item :: items => dumps item :: dumpsItems items

def dumpsEntries : List (String × Json) → List (List Token)
  | [] => []
  | (key, value) :: entries => member key (dumps value) :: dumpsEntries entries

end

/-- The length of a character in a string written with `ensure_ascii`. -/
def charLength (c : Char) : ℕ :=
  -- the quote, the backslash and the controls with a letter of their own
  if c.toNat ∈ [34, 92, 8, 9, 10, 12, 13] then 2
  else if 32 ≤ c.toNat ∧ c.toNat < 127 then 1
  -- past U+FFFF it is written as two surrogates
  else if c.toNat < 65536 then 6
  else 12

def tokenLength : Token → ℕ
  | .comma => 2
  | .colon => 2
  | .str s => (s.toList.map charLength).sum + 2
  | .num text => text.length
  | .word name => name.length
  | _ => 1

/-- `len(json.dumps(v))` -/
def dumpsLength (v : Json) : ℕ := ((dumps repr v).map tokenLength).sum

end

/-! ### JSONB -/

/-- A JSONB column takes a text if it is a JSON value and U+0000 is in no string of it. -/
def JsonbTakes (text : List Token) : Prop :=
  Value text ∧ ∀ s, .str s ∈ text → noNul s

mutual

/-- No U+0000 in a string or a key, and no float that JSON has no number for. -/
def storable : Json → Bool
  | .float (.fin _) => true
  | .float _ => false
  | .str s => noNul s
  | .arr items => storableItems items
  | .obj entries => storableEntries entries
  | _ => true

def storableItems : List Json → Bool
  | [] => true
  | item :: items => storable item && storableItems items

def storableEntries : List (String × Json) → Bool
  | [] => true
  | (key, value) :: entries => noNul key && storable value && storableEntries entries

end

/-- A token that a JSONB column takes. -/
def Takes (t : Token) : Prop := t.IsJson ∧ ∀ s, t = .str s → noNul s

variable {repr : ℚ → String}

theorem jsonbTakes_takes {text : List Token} (h : JsonbTakes text) : ∀ t ∈ text, Takes t :=
  fun t within => ⟨h.1.isJson t within, fun s eq => h.2 s (eq ▸ within)⟩

theorem forall_member {P : Token → Prop} {key : String} {value : List Token} (colon : P .colon) :
    (∀ t ∈ member key value, P t) ↔ P (.str key) ∧ ∀ t ∈ value, P t := by
  simp [member, colon]

theorem takes_str {s : String} : Takes (.str s) ↔ noNul s := by
  simp [Takes, Token.IsJson]

mutual

/-- A value is storable if each token of its text is taken. -/
theorem forall_takes_dumps (v : Json) : (∀ t ∈ dumps repr v, Takes t) ↔ storable v := by
  cases v with
  | null => simp [dumps, storable, Takes, Token.IsJson]
  | bool b => cases b <;> simp [dumps, storable, Takes, Token.IsJson]
  | int i => simp [dumps, storable, Takes, Token.IsJson]
  | float x => cases x <;> simp [dumps, storable, floatToken, Takes, Token.IsJson]
  | str s => simp [dumps, storable, takes_str]
  | arr items =>
    rw [dumps, array, forall_mem_enclosed, storable, forall_takes_dumpsItems items]
    all_goals simp [Takes, Token.IsJson]
  | obj entries =>
    rw [dumps, object, forall_mem_enclosed, storable, forall_takes_dumpsEntries entries]
    all_goals simp [Takes, Token.IsJson]

theorem forall_takes_dumpsItems (items : List Json) :
    (∀ ts ∈ dumpsItems repr items, ∀ t ∈ ts, Takes t) ↔ storableItems items := by
  cases items with
  | nil => simp [dumpsItems, storableItems]
  | cons item items =>
    rw [dumpsItems, List.forall_mem_cons, forall_takes_dumps item, forall_takes_dumpsItems items,
      storableItems, Bool.and_eq_true]

theorem forall_takes_dumpsEntries (entries : List (String × Json)) :
    (∀ ts ∈ dumpsEntries repr entries, ∀ t ∈ ts, Takes t) ↔ storableEntries entries := by
  cases entries with
  | nil => simp [dumpsEntries, storableEntries]
  | cons e entries =>
    obtain ⟨key, value⟩ := e
    rw [dumpsEntries, List.forall_mem_cons, forall_member (by simp [Takes, Token.IsJson]),
      takes_str, forall_takes_dumps value, forall_takes_dumpsEntries entries, storableEntries,
      Bool.and_eq_true, Bool.and_eq_true]

end

theorem dumpsEntries_eq (entries : List (String × Json)) :
    dumpsEntries repr entries =
      (entries.map fun e => (e.1, dumps repr e.2)).map fun m => member m.1 m.2 := by
  induction entries with
  | nil => rfl
  | cons e entries ih =>
    obtain ⟨key, value⟩ := e
    rw [dumpsEntries, ih]
    rfl

mutual

theorem value_dumps {v : Json} (h : storable v) : Value (dumps repr v) := by
  cases v with
  | null => exact .word (by simp)
  | bool b => cases b <;> exact .word (by simp)
  | int i => exact .num _
  | float x =>
    cases x with
    | fin x => exact .num _
    | inf | negInf | nan => cases h
  | str s => exact .str s
  | arr items => exact .array _ (value_dumpsItems h)
  | obj entries =>
    rw [dumps, dumpsEntries_eq]
    refine .object _ fun m among => ?_
    obtain ⟨e, here, rfl⟩ := List.mem_map.mp among
    exact value_dumpsEntries h e here

theorem value_dumpsItems {items : List Json} (h : storableItems items) :
    ∀ ts ∈ dumpsItems repr items, Value ts := by
  cases items with
  | nil => exact nofun
  | cons item items =>
    rw [storableItems, Bool.and_eq_true] at h
    rw [dumpsItems, List.forall_mem_cons]
    exact ⟨value_dumps h.1, value_dumpsItems h.2⟩

theorem value_dumpsEntries {entries : List (String × Json)} (h : storableEntries entries) :
    ∀ e ∈ entries, Value (dumps repr e.2) := by
  cases entries with
  | nil => exact nofun
  | cons e entries =>
    obtain ⟨key, value⟩ := e
    rw [storableEntries, Bool.and_eq_true, Bool.and_eq_true] at h
    rw [List.forall_mem_cons]
    exact ⟨value_dumps h.1.2, value_dumpsEntries h.2⟩

end

/-- A JSONB column takes what `json.dumps` writes for exactly the storable values. -/
theorem jsonbTakes_dumps_iff (v : Json) : JsonbTakes (dumps repr v) ↔ storable v := by
  constructor
  · exact fun taken => (forall_takes_dumps v).mp (jsonbTakes_takes taken)
  · exact fun h => ⟨value_dumps h, fun s within => ((forall_takes_dumps v).mpr h _ within).2 s rfl⟩

end DostReview.Review
