import Mathlib.Algebra.BigOperators.Group.Finset.Basic
import Mathlib.Algebra.GroupWithZero.Nat
import Mathlib.Algebra.Order.BigOperators.Group.Finset
import Mathlib.Data.Finset.Card
import Mathlib.Data.List.Nodup

/-!
# Tables with a primary key

A table as the list of its rows, with the proof that no two share a key. Statements on a
table are single-row upserts and updates of the non-key columns; what a query counts is
the cardinality of a set of keys, so that facts about counts are facts about sets.
-/

structure Table (κ ρ : Type) (key : ρ → κ) where
  rows : List ρ
  nodup : (rows.map key).Nodup

namespace Table

variable {κ ρ : Type} {key : ρ → κ} [DecidableEq κ]

def empty : Table κ ρ key := ⟨[], List.nodup_nil⟩

def find? (t : Table κ ρ key) (k : κ) : Option ρ := t.rows.find? fun r => key r = k

theorem key_of_find? {t : Table κ ρ key} {k : κ} {r : ρ} (h : t.find? k = some r) : key r = k := by
  simpa using List.find?_some h

theorem mem_of_find? {t : Table κ ρ key} {k : κ} {r : ρ} (h : t.find? k = some r) : r ∈ t.rows :=
  List.mem_of_find?_eq_some h

omit [DecidableEq κ] in
theorem eq_of_key {t : Table κ ρ key} {r r' : ρ} (h : r ∈ t.rows) (h' : r' ∈ t.rows)
    (same : key r = key r') : r = r' :=
  List.inj_on_of_nodup_map t.nodup h h' same

theorem find?_of_mem {t : Table κ ρ key} {r : ρ} (h : r ∈ t.rows) : t.find? (key r) = some r := by
  cases found : t.find? (key r) with
  | none => simpa using List.find?_eq_none.mp found r h
  | some r' => rw [eq_of_key (mem_of_find? found) h (key_of_find? found)]

theorem find?_eq_some {t : Table κ ρ key} {k : κ} {r : ρ} :
    t.find? k = some r ↔ r ∈ t.rows ∧ key r = k :=
  ⟨fun h => ⟨mem_of_find? h, key_of_find? h⟩, fun ⟨h, e⟩ => e ▸ find?_of_mem h⟩

/-- What every row but the one of a key has anyway, every row has if that one does. -/
theorem forall_find?_iff {t : Table κ ρ key} {Q : ρ → Prop} (k : κ) (others : ∀ r, key r ≠ k → Q r) :
    (∀ j r, t.find? j = some r → Q r) ↔ ∀ r ∈ t.find? k, Q r := by
  constructor
  · exact fun h r found => h k r found
  · intro h j r found
    by_cases mine : key r = k
    · exact h r (mine ▸ key_of_find? found ▸ found)
    · exact others r mine

/-! ### Statements -/

/-- Change columns of every row, never the key. -/
def update (t : Table κ ρ key) (f : ρ → ρ) (keeps : ∀ r, key (f r) = key r) : Table κ ρ key where
  rows := t.rows.map f
  nodup := by
    rw [List.map_map, show key ∘ f = key from funext keeps]
    exact t.nodup

@[simp] theorem find?_update (t : Table κ ρ key) (f : ρ → ρ) (keeps : ∀ r, key (f r) = key r)
    (k : κ) : (t.update f keeps).find? k = (t.find? k).map f := by
  simp only [find?, update, List.find?_map, Function.comp_def, keeps]

omit [DecidableEq κ] in
/-- An UPDATE that changes no row. -/
theorem update_id (t : Table κ ρ key) {f : ρ → ρ} (keeps : ∀ r, key (f r) = key r)
    (same : ∀ r, f r = r) : t.update f keeps = t := by
  obtain ⟨rows, nodup⟩ := t
  have rows_eq : rows.map f = rows := by
    rw [show f = id from funext same, List.map_id]
  simp only [update, rows_eq]

/-- Looking up present keys and changing the rows found keeps the keys. -/
theorem map_key_lookups (t : Table κ ρ key) {f : ρ → ρ} (keeps : ∀ r, key (f r) = key r)
    {ks : List κ} (present : ∀ k ∈ ks, ∃ r, t.find? k = some r) :
    (ks.filterMap fun k => (t.find? k).map f).map key = ks := by
  induction ks with
  | nil => rfl
  | cons k ks ih =>
    obtain ⟨r, found⟩ := present k List.mem_cons_self
    simp only [List.filterMap_cons, found, Option.map_some, List.map_cons, keeps, key_of_find? found]
    rw [ih fun k h => present k (List.mem_cons_of_mem _ h)]

/-- Replace the row with this row's key, or add it. -/
def put (t : Table κ ρ key) (row : ρ) : Table κ ρ key :=
  if present : (t.find? (key row)).isSome then
    t.update (fun r => if key r = key row then row else r) fun r => by split <;> simp [*]
  else
    { rows := t.rows ++ [row]
      nodup := by
        rw [List.map_append, List.nodup_append]
        refine ⟨t.nodup, by simp, ?_⟩
        rintro k hk _ hk' rfl
        obtain ⟨r, hr, rfl⟩ := List.mem_map.mp hk
        have same : key r = key row := by simpa using hk'
        exact present (same ▸ by rw [find?_of_mem hr]; rfl) }

theorem find?_put (t : Table κ ρ key) (row : ρ) (k : κ) :
    (t.put row).find? k = if k = key row then some row else t.find? k := by
  -- `put` replaces the row of its key in place, or appends it
  unfold put
  split
  next present =>
    rw [find?_update]
    by_cases mine : k = key row
    · obtain ⟨r, hr⟩ := Option.isSome_iff_exists.mp present
      simp [mine, hr, key_of_find? hr]
    · rw [if_neg mine]
      cases found : t.find? k with
      | none => rfl
      | some r =>
        have other : key r ≠ key row := fun e => mine ((key_of_find? found).symm.trans e)
        simp [other]
  next absent =>
    simp only [find?, List.find?_append, List.find?_singleton, decide_eq_true_eq]
    by_cases mine : k = key row
    · subst mine
      have none : t.rows.find? (fun r => key r = key row) = none := by
        simpa [find?] using absent
      simp [none]
    · simp [mine, Ne.symm mine]

/-! ### Counting -/

/-- `SELECT COUNT(*) … WHERE p`. -/
def count (t : Table κ ρ key) (p : ρ → Bool) : ℕ := t.rows.countP p

def keysWhere (t : Table κ ρ key) (p : ρ → Bool) : Finset κ := ((t.rows.filter p).map key).toFinset

theorem mem_keysWhere {t : Table κ ρ key} {p : ρ → Bool} {k : κ} :
    k ∈ t.keysWhere p ↔ ∃ r, t.find? k = some r ∧ p r = true := by
  simp only [keysWhere, List.mem_toFinset, List.mem_map, List.mem_filter, find?_eq_some]
  exact exists_congr fun r => ⟨fun ⟨⟨h, hp⟩, e⟩ => ⟨⟨h, e⟩, hp⟩, fun ⟨⟨h, e⟩, hp⟩ => ⟨⟨h, hp⟩, e⟩⟩

theorem card_keysWhere (t : Table κ ρ key) (p : ρ → Bool) : (t.keysWhere p).card = t.count p := by
  have distinct : ((t.rows.filter p).map key).Nodup := t.nodup.sublist (List.filter_sublist.map _)
  rw [keysWhere, List.toFinset_card_of_nodup distinct, List.length_map, count,
    List.countP_eq_length_filter]

theorem count_congr {t t' : Table κ ρ key} {p : ρ → Bool}
    (same : ∀ k, (∃ r, t.find? k = some r ∧ p r = true) ↔ ∃ r, t'.find? k = some r ∧ p r = true) :
    t.count p = t'.count p := by
  rw [← card_keysWhere, ← card_keysWhere]
  congr 1
  ext k
  rw [mem_keysWhere, mem_keysWhere, same]

/-- A weaker condition, or more rows under it, counts at least as many. -/
theorem count_le {t t' : Table κ ρ key} {p q : ρ → Bool}
    (imp : ∀ k r, t.find? k = some r → p r = true → ∃ r', t'.find? k = some r' ∧ q r' = true) :
    t.count p ≤ t'.count q := by
  rw [← card_keysWhere, ← card_keysWhere]
  refine Finset.card_le_card fun k hk => ?_
  obtain ⟨r, found, holds⟩ := mem_keysWhere.mp hk
  exact mem_keysWhere.mpr (imp k r found holds)

theorem count_put_le_of_not (t : Table κ ρ key) {row : ρ} {p : ρ → Bool} (outside : p row = false) :
    (t.put row).count p ≤ t.count p := by
  refine count_le fun k r found holds => ?_
  rw [find?_put] at found
  split at found
  · cases found
    simp [outside] at holds
  · exact ⟨r, found, holds⟩

theorem count_put_le (t : Table κ ρ key) (row : ρ) (p : ρ → Bool) :
    (t.put row).count p ≤ t.count p + 1 := by
  rw [← card_keysWhere, ← card_keysWhere]
  refine (Finset.card_le_card fun k hk => ?_).trans (Finset.card_insert_le (key row) _)
  obtain ⟨r, found, holds⟩ := mem_keysWhere.mp hk
  rw [find?_put] at found
  split at found
  next mine => exact mine ▸ Finset.mem_insert_self _ _
  next => exact Finset.mem_insert_of_mem (mem_keysWhere.mpr ⟨r, found, holds⟩)

/-- Bringing the rows of some keys under a condition: those under it already count once. -/
theorem count_marked (t t' : Table κ ρ key) (p : ρ → Bool) {ks : List κ} (distinct : ks.Nodup)
    (marked : ∀ k, (∃ r, t'.find? k = some r ∧ p r = true) ↔
      (∃ r, t.find? k = some r ∧ p r = true) ∨ k ∈ ks) :
    t'.count p + ks.countP (fun k => (t.find? k).any p) = t.count p + ks.length := by
  have union : t'.keysWhere p = t.keysWhere p ∪ ks.toFinset := by
    ext k
    rw [Finset.mem_union, mem_keysWhere, mem_keysWhere, List.mem_toFinset, marked]
  have inter : t.keysWhere p ∩ ks.toFinset = (ks.filter fun k => (t.find? k).any p).toFinset := by
    ext k
    simp only [Finset.mem_inter, mem_keysWhere, List.mem_toFinset, List.mem_filter,
      Option.any_eq_true]
    exact and_comm
  have card := Finset.card_union_add_card_inter (t.keysWhere p) ks.toFinset
  rwa [inter, ← union, List.toFinset_card_of_nodup distinct,
    List.toFinset_card_of_nodup (distinct.filter _), card_keysWhere, card_keysWhere,
    ← List.countP_eq_length_filter] at card

/-- Taking the row of a key from under a condition. -/
theorem count_removed (t t' : Table κ ρ key) (p : ρ → Bool) {k : κ} {r : ρ}
    (found : t.find? k = some r) (holds : p r = true)
    (removed : ∀ j, (∃ r, t'.find? j = some r ∧ p r = true) ↔
      j ≠ k ∧ ∃ r, t.find? j = some r ∧ p r = true) :
    t'.count p + 1 = t.count p := by
  have erased : t'.keysWhere p = (t.keysWhere p).erase k := by
    ext j
    rw [Finset.mem_erase, mem_keysWhere, mem_keysWhere, removed]
  rw [← card_keysWhere, ← card_keysWhere, erased]
  exact Finset.card_erase_add_one (mem_keysWhere.mpr ⟨r, found, holds⟩)

/-! ### Adding up -/

/-- `SELECT SUM(f)`. -/
def weigh (t : Table κ ρ key) (f : ρ → ℕ) : ℕ := (t.rows.map f).sum

/-- What the row of a key weighs, nothing if there is none. -/
def weightAt (t : Table κ ρ key) (f : ρ → ℕ) (k : κ) : ℕ := ((t.find? k).map f).getD 0

theorem weigh_eq_sum (t : Table κ ρ key) (f : ρ → ℕ) {keys : Finset κ}
    (all : ∀ r ∈ t.rows, key r ∈ keys) : t.weigh f = ∑ k ∈ keys, t.weightAt f k := by
  have own : t.weigh f = ∑ k ∈ (t.rows.map key).toFinset, t.weightAt f k := by
    rw [List.sum_toFinset _ t.nodup, List.map_map, weigh]
    refine congrArg List.sum (List.map_congr_left fun r member => ?_)
    simp [weightAt, find?_of_mem member]
  rw [own]
  refine Finset.sum_subset (fun k member => ?_) fun k _ absent => ?_
  · obtain ⟨r, within, rfl⟩ := List.mem_map.mp (List.mem_toFinset.mp member)
    exact all r within
  · cases found : t.find? k with
    | none => simp [weightAt, found]
    | some r =>
      have within := List.mem_map_of_mem (f := key) (mem_of_find? found)
      rw [key_of_find? found] at within
      exact absurd (List.mem_toFinset.mpr within) absent

/-- If no row loses and those of some keys gain, so do the tables. -/
theorem weigh_add_length_le {t t' : Table κ ρ key} {f : ρ → ℕ} {ks : List κ} (distinct : ks.Nodup)
    (gain : ∀ k, t.weightAt f k + (if k ∈ ks then 1 else 0) ≤ t'.weightAt f k) :
    t.weigh f + ks.length ≤ t'.weigh f := by
  let keys := (t.rows.map key).toFinset ∪ (t'.rows.map key).toFinset ∪ ks.toFinset
  have first : ∀ r ∈ t.rows, key r ∈ keys := fun r member => by
    simp only [keys, Finset.mem_union, List.mem_toFinset]
    exact .inl (.inl (List.mem_map_of_mem member))
  have second : ∀ r ∈ t'.rows, key r ∈ keys := fun r member => by
    simp only [keys, Finset.mem_union, List.mem_toFinset]
    exact .inl (.inr (List.mem_map_of_mem member))
  have gained : ∑ k ∈ keys, (if k ∈ ks then 1 else 0) = ks.length := by
    rw [← Finset.sum_filter, ← Finset.card_eq_sum_ones, ← List.toFinset_card_of_nodup distinct]
    congr 1
    ext k
    simp only [keys, Finset.mem_filter, Finset.mem_union, List.mem_toFinset]
    tauto
  rw [weigh_eq_sum t f first, weigh_eq_sum t' f second, ← gained, ← Finset.sum_add_distrib]
  exact Finset.sum_le_sum fun k _ => gain k

omit [DecidableEq κ] in
theorem weigh_le_mul_count (t : Table κ ρ key) {f : ρ → ℕ} {p : ρ → Bool} {n : ℕ}
    (bound : ∀ r, f r ≤ n) (outside : ∀ r, p r = false → f r = 0) : t.weigh f ≤ n * t.count p := by
  unfold weigh count
  induction t.rows with
  | nil => simp
  | cons r rows ih =>
    rw [List.map_cons, List.sum_cons, List.countP_cons, Nat.mul_add]
    cases inside : p r with
    | false =>
      rw [outside r inside]
      simpa using ih
    | true =>
      have most := bound r
      simp only [if_true, Nat.mul_one]
      omega

omit [DecidableEq κ] in
/-- Rows under a condition weigh their full weight, but for those under another. -/
theorem mul_count_le_weigh_add (t : Table κ ρ key) {f : ρ → ℕ} {p q : ρ → Bool} {n : ℕ}
    (full : ∀ r, p r = true → q r = true ∨ n ≤ f r) : n * t.count p ≤ t.weigh f + n * t.count q := by
  unfold weigh count
  induction t.rows with
  | nil => simp
  | cons r rows ih =>
    rw [List.map_cons, List.sum_cons, List.countP_cons, List.countP_cons, Nat.mul_add, Nat.mul_add]
    cases inside : p r with
    | false =>
      simp only [Bool.false_eq_true, if_false, Nat.mul_zero]
      omega
    | true =>
      rcases full r inside with other | heavy
      · simp only [other, if_true]
        omega
      · simp only [if_true, Nat.mul_one]
        omega

end Table
