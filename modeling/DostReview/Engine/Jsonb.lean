import DostReview.Engine.Stored
import DostReview.Library.Lookups

/-!
# What a JSONB column keeps

A JSONB column hands a value back with the keys of its objects in an order of its own, and a whole
number with or without its fraction. Nothing else changes, as long as no object has a key twice.
-/
namespace DostReview.Engine.Stored

open Risk

/-- A finite number, as either kind of number. -/
def rational : Json → Option ℚ
  | .int i => some i
  | .float (.fin x) => some x
  | _ => none

/-- The same value, but for the order of keys and the kind of its numbers. -/
inductive Same : Json → Json → Prop
  | null : Same .null .null
  | bool (b : Bool) : Same (.bool b) (.bool b)
  | str (s : String) : Same (.str s) (.str s)
  | number {x y : Json} {q : ℚ} : rational x = some q → rational y = some q → Same x y
  | arr {xs ys : List Json} : xs.length = ys.length →
      (∀ (i : ℕ) x y, xs[i]? = some x → ys[i]? = some y → Same x y) → Same (.arr xs) (.arr ys)
  | obj {d d' : JsonObject} : (d.map Prod.fst).Nodup → (d'.map Prod.fst).Nodup →
      (∀ key, Dict.get? d key = none ↔ Dict.get? d' key = none) →
      (∀ key x y, Dict.get? d key = some x → Dict.get? d' key = some y → Same x y) →
      Same (.obj d) (.obj d')

namespace Same

variable {x y : Json} {xs ys : List Json} {d d' : JsonObject}

theorem of_alike (h : Dict.Alike Same d d') : Same (.obj d) (.obj d') := by
  refine .obj h.distinct h.distinct' (fun key => ⟨h.missing, fun none => ?_⟩)
    fun key x y here there => ?_
  · cases here : Dict.get? d key with
    | none => rfl
    | some x =>
      obtain ⟨y, there, -⟩ := h.found here
      rw [none] at there
      cases there
  · obtain ⟨y', there', same⟩ := h.found here
    rw [there] at there'
    cases there'
    exact same

/-- Field by field, in the same order. -/
theorem of_fields (distinct : (d.map Prod.fst).Nodup)
    (entries : List.Forall₂ (fun e e' => e'.1 = e.1 ∧ Same e.2 e'.2) d d') :
    Same (.obj d) (.obj d') :=
  of_alike (.of_forall₂ distinct entries)

theorem of_forall₂ (h : List.Forall₂ Same xs ys) : Same (.arr xs) (.arr ys) := by
  refine .arr h.length_eq fun i x y here there => ?_
  obtain ⟨within, rfl⟩ := List.getElem?_eq_some_iff.mp here
  obtain ⟨within', rfl⟩ := List.getElem?_eq_some_iff.mp there
  exact (List.forall₂_iff_get.mp h).2 i within within'

theorem int (i : ℤ) : Same (.int i) (.int i) := .number rfl rfl

theorem strings (xs : List String) : Same (.arr (xs.map .str)) (.arr (xs.map .str)) :=
  of_forall₂ (List.forall₂_same.mpr fun x member => by
    obtain ⟨s, -, rfl⟩ := List.mem_map.mp member
    exact .str s)

theorem str_inv {s : String} (h : Same (.str s) x) : x = .str s := by
  cases h with
  | str => rfl
  | number here _ => cases here

theorem null_inv (h : Same .null x) : x = .null := by
  cases h with
  | null => rfl
  | number here _ => cases here

theorem number_inv {q : ℚ} (number : rational x = some q) (h : Same x y) : rational y = some q := by
  cases h with
  | number here there => exact there.trans (here.symm.trans number)
  | _ => cases number

theorem obj_inv (h : Same (.obj d) x) : ∃ d', x = .obj d' ∧ Dict.Alike Same d d' := by
  cases h with
  | number here _ => cases here
  | @obj _ d' distinct distinct' missing found =>
    refine ⟨d', rfl, distinct, distinct', fun key => ?_⟩
    cases here : Dict.get? d key with
    | none =>
      rw [(missing key).mp here]
      exact .none
    | some x =>
      cases there : Dict.get? d' key with
      | none => simp [(missing key).mpr there] at here
      | some y => exact .some (found key x y here there)

theorem arr_inv (h : Same (.arr xs) x) : ∃ ys, x = .arr ys ∧ List.Forall₂ Same xs ys := by
  cases h with
  | number here _ => cases here
  | @arr _ ys length items =>
    refine ⟨ys, rfl, List.forall₂_iff_get.mpr ⟨length, fun i here there => ?_⟩⟩
    exact items i _ _ (List.getElem?_eq_getElem here) (List.getElem?_eq_getElem there)

theorem strings_inv {strings : List String} (h : Same (.arr (strings.map .str)) x) :
    x = .arr (strings.map .str) := by
  obtain ⟨ys, rfl, items⟩ := h.arr_inv
  clear h
  congr 1
  induction strings generalizing ys with
  | nil => exact List.forall₂_nil_left_iff.mp items
  | cons s strings ih =>
    obtain ⟨y, ys, first, rest, rfl⟩ := List.forall₂_cons_left_iff.mp items
    rw [first.str_inv, ih ys rest]
    rfl

end Same

/-- A field of an object is that of any other with the same content. -/
theorem field_same {d d' : JsonObject} (h : Dict.Alike Same d d') (key : String) :
    Same (field d key) (field d' key) :=
  h.getD key .null

/-! ### What Python makes of it -/

/-- The object, for `isinstance(x, dict)`. -/
def asDict : Json → Option JsonObject
  | .obj o => some o
  | _ => none

variable {F : PyOps}

theorem truthy_of_rational {x : Json} {q : ℚ} (number : rational x = some q) :
    truthy x = decide (q ≠ 0) := by
  cases x with
  | int i =>
    obtain rfl := Option.some.inj number
    simp [truthy]
  | float f =>
    cases f with
    | fin v =>
      obtain rfl := Option.some.inj number
      rfl
    | _ => cases number
  | _ => cases number

theorem pyInt_of_rational {x : Json} {i : ℤ} (number : rational x = some (i : ℚ)) :
    pyInt F x = .ok i := by
  cases x with
  | int j =>
    have same : (j : ℚ) = i := Option.some.inj number
    rw [pyInt, Int.cast_injective same]
  | float f =>
    cases f with
    | fin v =>
      obtain rfl : v = i := Option.some.inj number
      simp [pyInt]
    | _ => cases number
  | _ => cases number

theorem countOf_of_rational {x : Json} {i : ℤ} (number : rational x = some (i : ℚ)) :
    countOf F x = .ok i := by
  rw [countOf, truthy_of_rational number, pyInt_of_rational number]
  by_cases zero : i = 0
  · simp [zero, orElse]
  · simp [zero, orElse]

/-! ### A column -/

/-- A stored value is handed back the same. -/
def Jsonb.Keeps (jsonb : Jsonb) : Prop := ∀ x y, Same x y → Same x (jsonb.echo y)

/-- The keys of an object come back the shorter ones first. -/
def before (a b : String × Json) : Prop :=
  a.1.length < b.1.length ∨ a.1.length = b.1.length ∧ a.1 ≤ b.1

instance (a b : String × Json) : Decidable (before a b) := inferInstanceAs (Decidable (_ ∨ _))

mutual

def ordered : Json → Json
  | .arr items => .arr (orderedItems items)
  | .obj entries => .obj ((orderedEntries entries).insertionSort before)
  | .null => .null
  | .bool b => .bool b
  | .int i => .int i
  | .float x => .float x
  | .str s => .str s

def orderedItems : List Json → List Json
  | [] => []
  | x :: items => ordered x :: orderedItems items

def orderedEntries : List (String × Json) → List (String × Json)
  | [] => []
  | (key, x) :: entries => (key, ordered x) :: orderedEntries entries

end

theorem orderedItems_eq (items : List Json) : orderedItems items = items.map ordered := by
  induction items with
  | nil => rfl
  | cons x items ih => rw [orderedItems, ih, List.map_cons]

theorem orderedEntries_eq (d : JsonObject) :
    orderedEntries d = Dict.mapValues (fun _ => ordered) d := by
  induction d with
  | nil => rfl
  | cons e d ih =>
    rw [orderedEntries, ih]
    rfl

/-- The keys are the same, in another order. -/
theorem keys_ordered (d : JsonObject) :
    (((orderedEntries d).insertionSort before).map Prod.fst).Perm (d.map Prod.fst) := by
  have same : (orderedEntries d).map Prod.fst = d.map Prod.fst := by
    rw [orderedEntries_eq, Dict.mapValues, List.map_map]
    rfl
  exact same ▸ (List.perm_insertionSort before _).map Prod.fst

def orderedColumn : Jsonb where
  echo := ordered
  objects entries := by
    refine ⟨(orderedEntries entries).insertionSort before, by rw [ordered], fun key => ?_⟩
    have both : Dict.get? ((orderedEntries entries).insertionSort before) key = none ↔
        Dict.get? entries key = none := by
      rw [Dict.get?_eq_none, Dict.get?_eq_none, (keys_ordered entries).mem_iff]
    rw [Bool.eq_iff_iff, Option.isSome_iff_ne_none, Option.isSome_iff_ne_none, not_iff_not]
    exact both

theorem keeps_orderedColumn : orderedColumn.Keeps := by
  intro x y same
  change Same x (ordered y)
  induction same with
  | null => exact .null
  | bool b => exact .bool b
  | str s => exact .str s
  | @number x y q here there =>
    refine .number here ?_
    cases y with
    | int | float => exact there
    | _ => cases there
  | @arr xs ys length _ ih =>
    rw [ordered, orderedItems_eq]
    refine .arr (by rw [length, List.length_map]) fun i x y here there => ?_
    rw [List.getElem?_map] at there
    obtain ⟨y, found, rfl⟩ := Option.map_eq_some_iff.mp there
    exact ih i x y here found
  | @obj d d' distinct distinct' missing _ ih =>
    have keys := keys_ordered d'
    have nodup : ((Dict.mapValues (fun _ => ordered) d').map Prod.fst).Nodup := by
      rw [Dict.mapValues, List.map_map]
      exact distinct'
    have lookup : ∀ key, Dict.get? ((orderedEntries d').insertionSort before) key =
        (Dict.get? d' key).map ordered := by
      intro key
      rw [orderedEntries_eq, Dict.get?_perm nodup (List.perm_insertionSort before _) key,
        Dict.get?_mapValues]
    rw [ordered]
    refine .obj distinct (keys.nodup_iff.mpr distinct') (fun key => ?_) fun key x y here there => ?_
    · rw [missing key, lookup, Option.map_eq_none_iff]
    · rw [lookup] at there
      obtain ⟨y, found, rfl⟩ := Option.map_eq_some_iff.mp there
      exact ih key x y here found

end DostReview.Engine.Stored
