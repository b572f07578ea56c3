import Mathlib.Data.List.MinMax
import Mathlib.Data.Prod.Lex
import DostReview.Risk.Serializable

/-!
# `review_queue` row by row

The queue with its ids and timestamps, which migration 005 compares. The migration expires
every OPEN row but the newest of its profile and then creates the partial unique index.
-/
namespace DostReview.Risk

inductive Decision
  | clear
  | restrict
  | suspend
  deriving DecidableEq

/-- A row of `review_queue`, with the instants in microseconds. -/
structure QueueEntry extends QueueRow where
  id : ℕ
  decision : Option Decision
  decidedBy : Option String
  decidedAt : Option ℤ
  createdAt : ℤ
  expiresAt : ℤ

namespace QueueEntry

def openFor (profileId : String) (q : QueueEntry) : Bool :=
  q.profileId = profileId ∧ q.status = .opened

/-- `(created_at, id)`, compared as SQL compares rows. -/
def stamp (q : QueueEntry) : ℤ ×ₗ ℕ := toLex (q.createdAt, q.id)

theorem openFor_iff {p : String} {q : QueueEntry} :
    q.openFor p = true ↔ q.profileId = p ∧ q.status = .opened := by
  simp [openFor]

end QueueEntry

/-! ### Migration 005 -/

/-- The subquery: an OPEN row of the same profile is newer. -/
def superseded (rows : List QueueEntry) (q : QueueEntry) : Bool :=
  rows.any fun newer => newer.openFor q.profileId ∧ q.stamp < newer.stamp

/-- The UPDATE, which finds the rows as they were before it. -/
def collapse (rows : List QueueEntry) : List QueueEntry :=
  rows.map fun q =>
    if q.status = .opened ∧ superseded rows q then { q with status := .expired } else q

/-- The rows satisfy `uq_review_queue_open`. -/
def uniqueOpen (rows : List QueueEntry) : Bool :=
  ((rows.filter fun q => q.status = .opened).map (·.profileId)).Nodup

/-- `CREATE UNIQUE INDEX` fails on rows with duplicates. -/
def migration005 (rows : List QueueEntry) : Option (List QueueEntry) :=
  if uniqueOpen (collapse rows) then some (collapse rows) else none

/-- At most one OPEN row per profile. -/
def SingleOpen (rows : List QueueEntry) : Prop := ∀ p, rows.countP (·.openFor p) ≤ 1

theorem uniqueOpen_iff {rows : List QueueEntry} : uniqueOpen rows = true ↔ SingleOpen rows := by
  have counted : ∀ p, List.count p ((rows.filter fun q => q.status = .opened).map (·.profileId)) =
      rows.countP (·.openFor p) := by
    intro p
    rw [List.count, List.countP_map, List.countP_filter]
    apply List.countP_congr
    intro q _
    simp [QueueEntry.openFor]
  simp only [uniqueOpen, decide_eq_true_eq, List.nodup_iff_count_le_one, counted]
  rfl

theorem SingleOpen.eq_of_mem {rows : List QueueEntry} (single : SingleOpen rows) {p : String}
    {q r : QueueEntry} (hq : q ∈ rows) (hr : r ∈ rows) (opened : q.openFor p = true)
    (opened' : r.openFor p = true) : q = r := by
  have short : (rows.filter (·.openFor p)).length ≤ 1 := by
    rw [← List.countP_eq_length_filter]
    exact single p
  have memq : q ∈ rows.filter (·.openFor p) := List.mem_filter.mpr ⟨hq, opened⟩
  have memr : r ∈ rows.filter (·.openFor p) := List.mem_filter.mpr ⟨hr, opened'⟩
  cases found : rows.filter (·.openFor p) with
  | nil => simp [found] at memq
  | cons first rest =>
    rw [found] at short memq memr
    have none : rest = [] := List.eq_nil_of_length_eq_zero (by simpa using short)
    subst none
    rw [List.mem_singleton.mp memq, List.mem_singleton.mp memr]

/-! ### The newest row -/

/-- No OPEN row of the profile is newer. -/
def Newest (rows : List QueueEntry) (q : QueueEntry) : Prop :=
  ∀ r ∈ rows, r.openFor q.profileId = true → r.stamp ≤ q.stamp

theorem superseded_iff {rows : List QueueEntry} {q : QueueEntry} :
    superseded rows q = true ↔ ¬Newest rows q := by
  simp [superseded, Newest]

theorem exists_newest {rows : List QueueEntry} {p : String}
    (some : ∃ q ∈ rows, q.openFor p = true) : ∃ q ∈ rows, q.openFor p = true ∧ Newest rows q := by
  obtain ⟨q, hq, opened⟩ := some
  have inhabited : rows.filter (·.openFor p) ≠ [] :=
    List.ne_nil_of_mem (List.mem_filter.mpr ⟨hq, opened⟩)
  -- the row with the largest stamp among the OPEN ones of the profile
  obtain ⟨r, largest⟩ : ∃ r, r ∈ (rows.filter (·.openFor p)).argmax QueueEntry.stamp :=
    Option.ne_none_iff_exists'.mp (by rwa [ne_eq, List.argmax_eq_none])
  obtain ⟨member, openedR⟩ := List.mem_filter.mp (List.argmax_mem largest)
  refine ⟨r, member, openedR, ?_⟩
  intro s hs openedS
  rw [(QueueEntry.openFor_iff.mp openedR).1] at openedS
  exact List.le_of_mem_argmax (List.mem_filter.mpr ⟨hs, openedS⟩) largest

/-- Ties in `created_at` are broken by the id. -/
theorem newest_unique {rows : List QueueEntry} (ids : (rows.map (·.id)).Nodup) {p : String}
    {q r : QueueEntry} (hq : q ∈ rows) (hr : r ∈ rows) (opened : q.openFor p = true)
    (opened' : r.openFor p = true) (newest : Newest rows q) (newest' : Newest rows r) : q = r := by
  have profileQ := (QueueEntry.openFor_iff.mp opened).1
  have profileR := (QueueEntry.openFor_iff.mp opened').1
  -- neither is newer, so the stamps agree, and with them the ids
  have above : q.stamp ≤ r.stamp := newest' q hq (by rwa [profileR])
  have below : r.stamp ≤ q.stamp := newest r hr (by rwa [profileQ])
  have same : q.id = r.id := congrArg (fun s => (ofLex s).2) (le_antisymm above below)
  exact List.inj_on_of_nodup_map ids hq hr same

/-! ### What the migration leaves -/

theorem mem_collapse_open {rows : List QueueEntry} {p : String} {q : QueueEntry} :
    q ∈ collapse rows ∧ q.openFor p = true ↔ q ∈ rows ∧ q.openFor p = true ∧ Newest rows q := by
  constructor
  · rintro ⟨member, opened⟩
    obtain ⟨r, hr, rfl⟩ := List.mem_map.mp member
    split at opened
    · -- an expired row is not OPEN
      simp [QueueEntry.openFor] at opened
    next kept =>
      rw [if_neg kept]
      refine ⟨hr, opened, ?_⟩
      have isOpen := (QueueEntry.openFor_iff.mp opened).2
      by_contra older
      exact kept ⟨isOpen, superseded_iff.mpr older⟩
  · rintro ⟨hq, opened, newest⟩
    refine ⟨List.mem_map.mpr ⟨q, hq, if_neg ?_⟩, opened⟩
    rintro ⟨-, older⟩
    exact superseded_iff.mp older newest

theorem ids_collapse (rows : List QueueEntry) :
    (collapse rows).map (·.id) = rows.map (·.id) := by
  rw [collapse, List.map_map]
  apply List.map_congr_left
  intro q _
  dsimp only [Function.comp]
  split <;> rfl

/-- With one OPEN row per profile there is nothing to collapse. -/
theorem collapse_of_single {rows : List QueueEntry} (single : SingleOpen rows) :
    collapse rows = rows := by
  unfold collapse
  conv => rhs; rw [← List.map_id rows]
  apply List.map_congr_left
  intro q hq
  rw [id_eq, if_neg]
  rintro ⟨opened, older⟩
  apply superseded_iff.mp older
  intro r hr openedR
  -- the only OPEN row of the profile is the row itself
  have openedQ : q.openFor q.profileId = true := QueueEntry.openFor_iff.mpr ⟨rfl, opened⟩
  rw [single.eq_of_mem hr hq openedR openedQ]

/-- What the migration makes of the rows it finds. -/
structure Collapsed (rows after : List QueueEntry) : Prop where
  /-- nothing is deleted or added -/
  ids : after.map (·.id) = rows.map (·.id)
  /-- closed rows and the newest OPEN row of a profile stay as they are, all columns of them -/
  kept : ∀ q ∈ rows, (q.status = .opened → Newest rows q) → q ∈ after
  expired : ∀ q ∈ rows, q.status = .opened → ¬Newest rows q →
    { q with status := .expired } ∈ after
  survivor : ∀ p, (∃ q ∈ rows, q.openFor p = true) →
    ∃ q ∈ rows, Newest rows q ∧ after.filter (·.openFor p) = [q]

/-- A list of distinct elements that are all one is a singleton. -/
theorem eq_singleton_of_nodup {α : Type} {xs : List α} {a : α} (distinct : xs.Nodup)
    (member : a ∈ xs) (all : ∀ x ∈ xs, x = a) : xs = [a] := by
  cases xs with
  | nil => cases member
  | cons x rest =>
    have first : x = a := all x List.mem_cons_self
    subst first
    cases rest with
    | nil => rfl
    | cons y rest =>
      have same : y = x := all y (by simp)
      simp [same] at distinct

theorem filter_collapse {rows : List QueueEntry} (ids : (rows.map (·.id)).Nodup) {p : String}
    {q : QueueEntry} (hq : q ∈ rows) (opened : q.openFor p = true) (newest : Newest rows q) :
    (collapse rows).filter (·.openFor p) = [q] := by
  have distinct : (collapse rows).Nodup := .of_map _ (by rw [ids_collapse]; exact ids)
  apply eq_singleton_of_nodup (distinct.filter _)
  · exact List.mem_filter.mpr (mem_collapse_open.mpr ⟨hq, opened, newest⟩)
  · intro r hr
    obtain ⟨member, openedR, newestR⟩ := mem_collapse_open.mp (List.mem_filter.mp hr)
    exact newest_unique ids member hq openedR opened newestR newest

theorem collapsed_collapse {rows : List QueueEntry} (ids : (rows.map (·.id)).Nodup) :
    Collapsed rows (collapse rows) where
  ids := ids_collapse rows
  kept q hq newest := by
    refine List.mem_map.mpr ⟨q, hq, if_neg ?_⟩
    rintro ⟨opened, older⟩
    exact superseded_iff.mp older (newest opened)
  expired q hq opened older := List.mem_map.mpr ⟨q, hq, if_pos ⟨opened, superseded_iff.mpr older⟩⟩
  survivor p some := by
    obtain ⟨q, hq, opened, newest⟩ := exists_newest some
    exact ⟨q, hq, newest, filter_collapse ids hq opened newest⟩

theorem single_collapse {rows : List QueueEntry} (ids : (rows.map (·.id)).Nodup) :
    SingleOpen (collapse rows) := by
  intro p
  rw [List.countP_eq_length_filter]
  by_cases some : ∃ q ∈ rows, q.openFor p = true
  · obtain ⟨q, hq, opened, newest⟩ := exists_newest some
    rw [filter_collapse ids hq opened newest, List.length_singleton]
  · have none : (collapse rows).filter (·.openFor p) = [] := by
      apply List.filter_eq_nil_iff.mpr
      intro q hq opened
      obtain ⟨member, openedQ, -⟩ := mem_collapse_open.mp ⟨hq, opened⟩
      exact some ⟨q, member, openedQ⟩
    rw [none]
    exact Nat.zero_le _

theorem migration005_eq {rows : List QueueEntry} (single : SingleOpen (collapse rows)) :
    migration005 rows = some (collapse rows) :=
  if_pos (uniqueOpen_iff.mpr single)

end DostReview.Risk
