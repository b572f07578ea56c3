import Mathlib.Data.List.Nodup
import Mathlib.Data.List.Perm.Basic
import Mathlib.Data.Option.Basic
import DostReview.Library.Dict

/-!
# Dictionaries that are read alike

Two dictionaries that answer every lookup alike, neither of which has a key twice. Their entries
may stand in any order, and their values may be of different types.
-/
namespace Dict

variable {κ β γ δ ε : Type} [DecidableEq κ]

structure Alike (R : β → γ → Prop) (d : Dict κ β) (d' : Dict κ γ) : Prop where
  distinct : (d.map Prod.fst).Nodup
  distinct' : (d'.map Prod.fst).Nodup
  lookup : ∀ key, Option.Rel R (get? d key) (get? d' key)

variable {R : β → γ → Prop} {d : Dict κ β} {d' : Dict κ γ}

theorem Alike.nil : Alike R ([] : Dict κ β) ([] : Dict κ γ) where
  distinct := List.nodup_nil
  distinct' := List.nodup_nil
  lookup _ := .none

theorem get?_eq_none {key : κ} : get? d key = none ↔ key ∉ d.map Prod.fst := by
  induction d with
  | nil => simp [get?]
  | cons e d ih =>
    obtain ⟨k, v⟩ := e
    by_cases here : k = key
    · simp [get?, here]
    · simp [get?, here, ih, Ne.symm here]

/-- What is found in one is found in the other, related. -/
theorem Alike.found (h : Alike R d d') {key : κ} {value : β} (there : get? d key = some value) :
    ∃ value', get? d' key = some value' ∧ R value value' := by
  have related := h.lookup key
  rw [there] at related
  cases found : get? d' key with
  | none => simp [found] at related
  | some value' =>
    rw [found] at related
    cases related with
    | some values => exact ⟨value', rfl, values⟩

theorem Alike.missing (h : Alike R d d') {key : κ} (there : get? d key = none) :
    get? d' key = none := by
  have related := h.lookup key
  rw [there] at related
  cases found : get? d' key with
  | none => rfl
  | some value' => simp [found] at related

theorem Alike.getD (h : Alike R d d') (key : κ) {value : β} {value' : γ}
    (default : R value value') : R ((get? d key).getD value) ((get? d' key).getD value') := by
  cases there : get? d key with
  | none =>
    rw [h.missing there]
    exact default
  | some found =>
    obtain ⟨found', there', related⟩ := h.found there
    rw [there']
    exact related

/-- What holds of every value on the one side goes into the relation. -/
theorem Alike.and_left (h : Alike R d d') {P : β → Prop} (all : ∀ e ∈ d, P e.2) :
    Alike (fun value value' => R value value' ∧ P value) d d' where
  distinct := h.distinct
  distinct' := h.distinct'
  lookup key := by
    cases there : get? d key with
    | none =>
      rw [h.missing there]
      exact .none
    | some value =>
      obtain ⟨value', there', values⟩ := h.found there
      rw [there']
      exact .some ⟨values, all _ (mem_of_get? there)⟩

/-- Entry by entry, with the same keys. -/
theorem Alike.of_forall₂ (distinct : (d.map Prod.fst).Nodup)
    (entries : List.Forall₂ (fun e e' => e'.1 = e.1 ∧ R e.2 e'.2) d d') : Alike R d d' := by
  have keys : d'.map Prod.fst = d.map Prod.fst := by
    clear distinct
    induction entries with
    | nil => rfl
    | cons first _ ih => rw [List.map_cons, List.map_cons, first.1, ih]
  refine ⟨distinct, keys ▸ distinct, fun key => ?_⟩
  clear distinct keys
  induction entries with
  | nil => exact .none
  | cons first _ ih =>
    simp only [get?, first.1]
    split
    · exact .some first.2
    · exact ih

/-! ### Operations -/

theorem Alike.set (h : Alike R d d') (key : κ) {value : β} {value' : γ} (new : R value value') :
    Alike R (set d key value) (set d' key value') where
  distinct := nodup_set h.distinct key value
  distinct' := nodup_set h.distinct' key value'
  lookup other := by
    rw [get?_set, get?_set]
    split
    · exact .some new
    · exact h.lookup other

theorem Alike.setDefault (h : Alike R d d') (key : κ) {value : β} {value' : γ}
    (new : R value value') : Alike R (setDefault d key value) (setDefault d' key value') := by
  unfold Dict.setDefault
  cases there : get? d key with
  | none =>
    rw [h.missing there]
    exact h.set key new
  | some found =>
    obtain ⟨found', there', -⟩ := h.found there
    rw [there']
    exact h

theorem Alike.mapValues (h : Alike R d d') {S : δ → ε → Prop} {f : κ → β → δ} {g : κ → γ → ε}
    (related : ∀ key value value', R value value' → S (f key value) (g key value')) :
    Alike S (mapValues f d) (mapValues g d') where
  distinct := by
    rw [Dict.mapValues, List.map_map]
    exact h.distinct
  distinct' := by
    rw [Dict.mapValues, List.map_map]
    exact h.distinct'
  lookup key := by
    rw [get?_mapValues, get?_mapValues]
    cases there : get? d key with
    | none =>
      rw [h.missing there]
      exact .none
    | some value =>
      obtain ⟨value', there', values⟩ := h.found there
      rw [there']
      exact .some (related key value value' values)

/-- What is related to the mapped values is related to the values. -/
theorem Alike.of_mapValues {f : κ → δ → β} {d : Dict κ δ} (h : Alike R (Dict.mapValues f d) d')
    {S : δ → γ → Prop} (related : ∀ key value value', R (f key value) value' → S value value') :
    Alike S d d' where
  distinct := by
    have distinct := h.distinct
    rwa [Dict.mapValues, List.map_map] at distinct
  distinct' := h.distinct'
  lookup key := by
    cases there : get? d key with
    | none =>
      rw [h.missing (by rw [get?_mapValues, there, Option.map_none])]
      exact .none
    | some value =>
      have mapped : get? (Dict.mapValues f d) key = some (f key value) := by
        rw [get?_mapValues, there, Option.map_some]
      obtain ⟨value', there', values⟩ := h.found mapped
      rw [there']
      exact .some (related key value value' values)

omit [DecidableEq κ] in
theorem nodup_filter (distinct : (d.map Prod.fst).Nodup) (p : κ × β → Bool) :
    ((d.filter p).map Prod.fst).Nodup :=
  distinct.sublist (List.filter_sublist.map _)

/-- Where no key is there twice, an entry that does not pass is gone. -/
theorem get?_filter_of_nodup (distinct : (d.map Prod.fst).Nodup) (p : κ × β → Bool) (key : κ) :
    get? (d.filter p) key = (get? d key).filter fun value => p (key, value) := by
  cases there : get? d key with
  | none =>
    refine get?_eq_none.mpr fun member => get?_eq_none.mp there ?_
    exact (List.filter_sublist.map _).subset member
  | some value =>
    by_cases passes : p (key, value) = true
    · rw [get?_filter there passes, Option.filter_some, if_pos passes]
    · rw [Option.filter_some, if_neg passes]
      refine get?_eq_none.mpr fun member => passes ?_
      obtain ⟨⟨_, other⟩, within, rfl⟩ := List.mem_map.mp member
      obtain ⟨among, passed⟩ := List.mem_filter.mp within
      have same := get?_of_mem distinct among
      rw [there] at same
      rw [Option.some.inj same]
      exact passed

theorem Alike.filter (h : Alike R d d') {p : κ × β → Bool} {q : κ × γ → Bool}
    (agree : ∀ key value value', R value value' → p (key, value) = q (key, value')) :
    Alike R (d.filter p) (d'.filter q) where
  distinct := nodup_filter h.distinct p
  distinct' := nodup_filter h.distinct' q
  lookup key := by
    rw [get?_filter_of_nodup h.distinct, get?_filter_of_nodup h.distinct']
    cases there : get? d key with
    | none =>
      rw [h.missing there]
      exact .none
    | some value =>
      obtain ⟨value', there', values⟩ := h.found there
      rw [there', Option.filter_some, Option.filter_some, agree key value value' values]
      split
      · exact .some values
      · exact .none

omit [DecidableEq κ] in
theorem map_fst_filterMap (f : γ → Option δ) {d' : Dict κ γ}
    (all : ∀ e ∈ d', (f e.2).isSome = true) :
    (d'.filterMap fun e => (f e.2).map (Prod.mk e.1)).map Prod.fst = d'.map Prod.fst := by
  induction d' with
  | nil => rfl
  | cons e d' ih =>
    obtain ⟨first, later⟩ := List.forall_mem_cons.mp all
    obtain ⟨x, found⟩ := Option.isSome_iff_exists.mp first
    simp [found, ih later]

/-- Reading every value, where each of them can be read. -/
theorem Alike.filterMap (h : Alike R d d') {S : β → δ → Prop} {f : γ → Option δ}
    (read : ∀ value value', R value value' → ∃ x, f value' = some x ∧ S value x) :
    Alike S d (d'.filterMap fun e => (f e.2).map (Prod.mk e.1)) := by
  have all : ∀ e ∈ d', (f e.2).isSome = true := by
    intro e member
    have found := get?_of_mem h.distinct' member
    cases there : get? d e.1 with
    | none =>
      rw [h.missing there] at found
      cases found
    | some value =>
      obtain ⟨value', there', values⟩ := h.found there
      rw [found] at there'
      obtain ⟨x, readable, -⟩ := read value value' values
      rw [Option.some.inj there', readable]
      rfl
  have keys := map_fst_filterMap f all
  refine ⟨h.distinct, keys ▸ h.distinct', fun key => ?_⟩
  cases there : get? d key with
  | none =>
    have none : get? (d'.filterMap fun e => (f e.2).map (Prod.mk e.1)) key = none := by
      rw [get?_eq_none, keys, ← get?_eq_none]
      exact h.missing there
    rw [none]
    exact .none
  | some value =>
    obtain ⟨value', there', values⟩ := h.found there
    obtain ⟨x, readable, related⟩ := read value value' values
    have member : (key, x) ∈ d'.filterMap fun e => (f e.2).map (Prod.mk e.1) :=
      List.mem_filterMap.mpr ⟨_, mem_of_get? there', by simp [readable]⟩
    rw [get?_of_mem (keys ▸ h.distinct') member]
    exact .some related

/-! ### The entries -/

/-- Two dictionaries with the same lookups have the same entries. -/
theorem perm_of_get? {d d' : Dict κ β} (distinct : (d.map Prod.fst).Nodup)
    (distinct' : (d'.map Prod.fst).Nodup) (same : ∀ key, get? d key = get? d' key) :
    d.Perm d' := by
  refine (List.perm_ext_iff_of_nodup distinct.of_map distinct'.of_map).mpr fun e => ?_
  constructor
  · exact fun member => mem_of_get? ((same e.1).symm.trans (get?_of_mem distinct member))
  · exact fun member => mem_of_get? ((same e.1).trans (get?_of_mem distinct' member))

/-- What is made of the single entries alike comes to the same, but for the order. -/
theorem Alike.map_perm (h : Alike R d d') {f : κ → β → δ} {g : κ → γ → δ}
    (agree : ∀ key value value', R value value' → f key value = g key value') :
    (d.map fun e => (e.1, f e.1 e.2)).Perm (d'.map fun e => (e.1, g e.1 e.2)) := by
  have both : Alike (· = ·) (Dict.mapValues f d) (Dict.mapValues g d') := h.mapValues agree
  refine perm_of_get? both.distinct both.distinct' fun key => ?_
  change get? (Dict.mapValues f d) key = get? (Dict.mapValues g d') key
  cases there : get? (Dict.mapValues f d) key with
  | none => exact (both.missing there).symm
  | some value =>
    obtain ⟨value', there', rfl⟩ := both.found there
    exact there'.symm

theorem Alike.keys_perm (h : Alike R d d') : (d.map Prod.fst).Perm (d'.map Prod.fst) := by
  have entries := h.map_perm (f := fun _ _ => ()) (g := fun _ _ => ()) fun _ _ _ _ => rfl
  have keys := entries.map Prod.fst
  rw [List.map_map, List.map_map] at keys
  exact keys

/-! ### Other keys for the same values -/

section

variable {ι : Type} [DecidableEq ι] {name : κ → ι} (inj : Function.Injective name)

/-- The dictionary with its keys renamed. -/
def renamed (name : κ → ι) (d : Dict κ β) : Dict ι β := d.map fun e => (name e.1, e.2)

include inj

theorem get?_renamed (d : Dict κ β) (key : κ) : get? (renamed name d) (name key) = get? d key := by
  induction d with
  | nil => rfl
  | cons e d ih =>
    obtain ⟨k, v⟩ := e
    by_cases here : k = key
    · simp [renamed, get?, here]
    · simpa [renamed, get?, here, inj.ne here] using ih

theorem renamed_set (d : Dict κ β) (key : κ) (value : β) :
    renamed name (set d key value) = set (renamed name d) (name key) value := by
  induction d with
  | nil => rfl
  | cons e d ih =>
    obtain ⟨k, v⟩ := e
    by_cases here : k = key
    · simp [renamed, Dict.set, here]
    · simpa [renamed, Dict.set, here, inj.ne here] using ih

variable (name) in
omit [DecidableEq κ] [DecidableEq ι] inj in
theorem renamed_filter (d : Dict κ β) {p : κ × β → Bool} {q : ι × β → Bool}
    (agree : ∀ key value, q (name key, value) = p (key, value)) :
    renamed name (d.filter p) = (renamed name d).filter q := by
  rw [renamed, renamed, List.filter_map]
  congr 1
  exact List.filter_congr fun e _ => (agree e.1 e.2).symm

/-- A function of the old keys on one side, one of the new keys on the other. -/
theorem Alike.renamed_mapValues {d : Dict κ β} {d' : Dict ι γ} (h : Alike R (renamed name d) d')
    {S : δ → ε → Prop} {f : κ → β → δ} {g : ι → γ → ε}
    (related : ∀ key value value', R value value' → S (f key value) (g (name key) value')) :
    Alike S (renamed name (Dict.mapValues f d)) (Dict.mapValues g d') := by
  have distinct : ((renamed name (Dict.mapValues f d)).map Prod.fst).Nodup := by
    have before := h.distinct
    rw [renamed, List.map_map] at before
    rw [renamed, Dict.mapValues, List.map_map, List.map_map]
    exact before
  refine ⟨distinct, ?_, fun key => ?_⟩
  · rw [Dict.mapValues, List.map_map]
    exact h.distinct'
  · by_cases named : ∃ old, name old = key
    · obtain ⟨old, rfl⟩ := named
      rw [get?_renamed inj, get?_mapValues, get?_mapValues]
      cases there : get? d old with
      | none =>
        rw [h.missing (by rw [get?_renamed inj, there])]
        exact .none
      | some value =>
        obtain ⟨value', there', values⟩ := h.found ((get?_renamed inj d old).trans there)
        rw [there']
        exact .some (related old value value' values)
    · have none : ∀ {η : Type} (d : Dict κ η), get? (renamed name d) key = none := by
        intro η d
        refine get?_eq_none.mpr fun member => named ?_
        obtain ⟨e, within, rfl⟩ := List.mem_map.mp member
        obtain ⟨old, -, rfl⟩ := List.mem_map.mp within
        exact ⟨old.1, rfl⟩
      rw [none, get?_mapValues, h.missing (none d)]
      exact .none

theorem renamed_setDefault (d : Dict κ β) (key : κ) (value : β) :
    renamed name (Dict.setDefault d key value) =
      Dict.setDefault (renamed name d) (name key) value := by
  rw [Dict.setDefault, Dict.setDefault, get?_renamed inj]
  cases get? d key with
  | none => exact renamed_set inj d key value
  | some _ => rfl

end

end Dict
