import Mathlib.Data.List.Basic

/-!
# Insertion-ordered dictionaries

A dictionary as the list of its entries in the order in which the keys were first
written. Writing an existing key keeps its place.
-/

/-- A dictionary; at most the first entry of a key counts. -/
abbrev Dict (κ β : Type) := List (κ × β)

namespace Dict

variable {κ β γ : Type} [DecidableEq κ]

def get? : Dict κ β → κ → Option β
  | [], _ => none
  | (k, v) :: d, key => if k = key then some v else get? d key

def set : Dict κ β → κ → β → Dict κ β
  | [], key, value => [(key, value)]
  | (k, v) :: d, key, value => if k = key then (key, value) :: d else (k, v) :: set d key value

/-- Write the key only if it is absent. -/
def setDefault (d : Dict κ β) (key : κ) (value : β) : Dict κ β :=
  match get? d key with
  | some _ => d
  | none => set d key value

/-- Apply a function to every value. -/
def mapValues (f : κ → β → γ) (d : Dict κ β) : Dict κ γ := d.map fun e => (e.1, f e.1 e.2)

theorem get?_set (d : Dict κ β) (key : κ) (value : β) (other : κ) :
    get? (set d key value) other = if other = key then some value else get? d other := by
  induction d with
  | nil => simp only [set, get?, eq_comm]
  | cons e d ih =>
    obtain ⟨k, v⟩ := e
    by_cases hk : k = key
    · subst hk
      by_cases ho : other = k
      · simp [set, get?, ho]
      · simp [set, get?, ho, Ne.symm ho]
    · by_cases ho : k = other
      · subst ho
        simp [set, get?, hk]
      · simp [set, get?, hk, ho, ih]

theorem get?_setDefault (d : Dict κ β) (key : κ) (value : β) (other : κ) :
    get? (setDefault d key value) other =
      if other = key then some ((get? d key).getD value) else get? d other := by
  unfold setDefault
  cases h : get? d key with
  | none => rw [get?_set]; rfl
  | some v =>
    by_cases ho : other = key
    · simp [ho, h]
    · simp [ho]

@[simp] theorem get?_mapValues (f : κ → β → γ) (d : Dict κ β) (key : κ) :
    get? (mapValues f d) key = (get? d key).map (f key) := by
  induction d with
  | nil => rfl
  | cons e d ih =>
    obtain ⟨k, v⟩ := e
    by_cases hk : k = key
    · simp [mapValues, get?, hk]
    · simpa [mapValues, get?, hk] using ih

omit [DecidableEq κ] in
theorem mapValues_id {f : κ → β → β} (same : ∀ key value, f key value = value) (d : Dict κ β) :
    mapValues f d = d := by
  rw [mapValues]
  simp only [same, List.map_id']

theorem mapValues_set (f : κ → β → γ) (d : Dict κ β) (key : κ) (value : β) :
    mapValues f (set d key value) = set (mapValues f d) key (f key value) := by
  induction d with
  | nil => rfl
  | cons e d ih =>
    obtain ⟨k, v⟩ := e
    by_cases hk : k = key
    · simp [set, mapValues, hk]
    · simpa [set, mapValues, hk] using ih

theorem mem_of_get? {d : Dict κ β} {key : κ} {value : β} (h : get? d key = some value) :
    (key, value) ∈ d := by
  induction d with
  | nil => cases h
  | cons e d ih =>
    obtain ⟨k, v⟩ := e
    by_cases hk : k = key
    · simp only [get?, hk, if_true, Option.some.injEq] at h
      simp [hk, h]
    · simp only [get?, hk, if_false] at h
      exact List.mem_cons_of_mem _ (ih h)

/-- Filtering entries keeps the one that counts, if it passes. -/
theorem get?_filter {d : Dict κ β} {p : κ × β → Bool} {key : κ} {value : β}
    (found : get? d key = some value) (kept : p (key, value) = true) :
    get? (d.filter p) key = some value := by
  induction d with
  | nil => cases found
  | cons e d ih =>
    obtain ⟨k, v⟩ := e
    by_cases here : k = key
    · subst here
      simp only [get?, if_true, Option.some.injEq] at found
      subst found
      simp [kept, get?]
    · simp only [get?, here, if_false] at found
      rw [List.filter_cons]
      split
      · simp only [get?, here, if_false]
        exact ih found
      · exact ih found

theorem get?_of_mem {d : Dict κ β} {key : κ} {value : β} (distinct : (d.map Prod.fst).Nodup)
    (h : (key, value) ∈ d) : get? d key = some value := by
  induction d with
  | nil => cases h
  | cons e d ih =>
    obtain ⟨k, v⟩ := e
    rw [List.map_cons, List.nodup_cons] at distinct
    rcases List.mem_cons.mp h with same | later
    · cases same
      simp [get?]
    · have other : k ≠ key := fun same =>
        distinct.1 (List.mem_map.mpr ⟨(key, value), later, same.symm⟩)
      simpa [get?, other] using ih distinct.2 later

theorem mem_set {d : Dict κ β} {key : κ} {value : β} {e : κ × β} (h : e ∈ set d key value) :
    e = (key, value) ∨ e ∈ d := by
  induction d with
  | nil => simpa [set] using h
  | cons x d ih =>
    obtain ⟨k, v⟩ := x
    by_cases hk : k = key
    · simp only [set, hk, if_true, List.mem_cons] at h
      exact h.imp_right (List.mem_cons_of_mem _)
    · simp only [set, hk, if_false, List.mem_cons] at h
      rcases h with rfl | h
      · exact Or.inr List.mem_cons_self
      · exact (ih h).imp_right (List.mem_cons_of_mem _)

theorem nodup_set {d : Dict κ β} (distinct : (d.map Prod.fst).Nodup) (key : κ) (value : β) :
    ((set d key value).map Prod.fst).Nodup := by
  induction d with
  | nil => simp [set]
  | cons e d ih =>
    obtain ⟨k, v⟩ := e
    rw [List.map_cons, List.nodup_cons] at distinct
    by_cases hk : k = key
    · simp only [set, hk, if_true, List.map_cons, List.nodup_cons]
      exact hk ▸ distinct
    · simp only [set, hk, if_false, List.map_cons, List.nodup_cons]
      refine ⟨fun h => ?_, ih distinct.2⟩
      obtain ⟨e, he, same⟩ := List.mem_map.mp h
      rcases mem_set he with rfl | old
      · exact hk same.symm
      · exact distinct.1 (List.mem_map.mpr ⟨e, old, same⟩)

/-- The order of the entries does not matter where no key is there twice. -/
theorem get?_perm {d d' : Dict κ β} (distinct : (d.map Prod.fst).Nodup) (perm : d'.Perm d)
    (key : κ) : get? d' key = get? d key := by
  have distinct' : (d'.map Prod.fst).Nodup := (perm.map _).nodup_iff.mpr distinct
  cases found : get? d' key with
  | some value => exact (get?_of_mem distinct (perm.mem_iff.mp (mem_of_get? found))).symm
  | none =>
    cases found' : get? d key with
    | none => rfl
    | some value =>
      have back := get?_of_mem distinct' (perm.mem_iff.mpr (mem_of_get? found'))
      exact absurd (back.symm.trans found) (by simp)

/-- Writing a value under each of some keys. -/
theorem get?_foldl_set (keys : List κ) (f : κ → β) (d : Dict κ β) (key : κ) :
    get? (keys.foldl (fun d k => set d k (f k)) d) key =
      if key ∈ keys then some (f key) else get? d key := by
  induction keys generalizing d with
  | nil => simp
  | cons k keys ih =>
    rw [List.foldl_cons, ih, get?_set]
    by_cases here : key = k
    · simp [here]
    · simp [here]

/-- Adding to the list under one key adds to all the lists together. -/
theorem perm_push (d : Dict κ (List β)) (key : κ) (x : β) :
    ((set d key ((get? d key).getD [] ++ [x])).flatMap Prod.snd).Perm
      (d.flatMap Prod.snd ++ [x]) := by
  induction d with
  | nil => simp [set, get?]
  | cons e d ih =>
    obtain ⟨k, v⟩ := e
    by_cases here : k = key
    · simp only [set, get?, here, if_true, Option.getD_some, List.flatMap_cons, List.append_assoc]
      exact (List.perm_append_comm).append_left v
    · simp only [set, get?, here, if_false, List.flatMap_cons, List.append_assoc]
      exact ih.append_left v

end Dict
