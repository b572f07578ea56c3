import Mathlib.Algebra.Group.Hom.Defs
import Mathlib.Order.Basic
import DostReview.Library.Tally

/-!
# Fading evidence

Evidence that comes with a date and counts for less the older it gets, kept as one running
total under each key. A total that is carried forward to the time of each new batch is what
the whole evidence weighs by then: the single pieces can be forgotten.
-/
namespace Fading

section

variable {α τ M : Type} [AddCommMonoid M]

/-- How a total is carried from one time to a later one, under each key. -/
structure Carry (α τ M : Type) [LE τ] [AddCommMonoid M] where
  carry : α → τ → τ → M →+ M
  carry_self : ∀ key t x, carry key t t x = x
  carry_carry : ∀ key {t u v : τ} (x : M), t ≤ u → u ≤ v →
    carry key u v (carry key t u x) = carry key t v x

/-- One piece of evidence: its key, its date and what it weighs at that date. -/
structure Piece (α τ M : Type) where
  key : α
  date : τ
  value : M

variable [LE τ] (C : Carry α τ M)

/-- What a piece adds under its key at a later time. -/
def Carry.weigh (now : τ) (e : Piece α τ M) : α × M := (e.key, C.carry e.key e.date now e.value)

variable [DecidableEq α]

/-- The whole evidence as it weighs at a time. -/
def Carry.weighed (now : τ) (evidence : List (Piece α τ M)) : Dict α M :=
  (evidence.map (C.weigh now)).foldl Tally.add []

/-- The running totals, and the time up to which they are carried. -/
structure Totals (α τ M : Type) where
  clock : Option τ := none
  sums : Dict α M := []

/-- The totals carried forward to a time. -/
def Totals.carried (t : Totals α τ M) (now : τ) : Dict α M :=
  match t.clock with
  | none => t.sums
  | some last => Dict.mapValues (fun key => C.carry key last now) t.sums

/-- A batch of evidence taken in. -/
def Totals.take (t : Totals α τ M) (batch : τ × List (Piece α τ M)) : Totals α τ M where
  clock := some batch.1
  sums := (batch.2.map (C.weigh batch.1)).foldl Tally.add (t.carried C batch.1)

variable {C} {now later : τ} {evidence new : List (Piece α τ M)}

theorem weighed_append :
    C.weighed now (evidence ++ new) =
      (new.map (C.weigh now)).foldl Tally.add (C.weighed now evidence) := by
  rw [Carry.weighed, List.map_append, List.foldl_append]
  rfl

/-- Carrying the sum of evidence forward is carrying every piece of it. -/
theorem mapValues_weighed (before : ∀ e ∈ evidence, e.date ≤ now) (order : now ≤ later) :
    Dict.mapValues (fun key => C.carry key now later) (C.weighed now evidence) =
      C.weighed later evidence := by
  have pieces : (evidence.map (C.weigh now)).map
      (fun e => (e.1, C.carry e.1 now later e.2)) = evidence.map (C.weigh later) := by
    rw [List.map_map]
    apply List.map_congr_left
    intro e member
    exact congrArg (Prod.mk e.key) (C.carry_carry e.key e.value (before e member) order)
  rw [Carry.weighed, Tally.mapValues_foldl_add, pieces]
  rfl

theorem Totals.carried_of_weighed {t : Totals α τ M} (clock : t.clock = some now)
    (sums : t.sums = C.weighed now evidence) (before : ∀ e ∈ evidence, e.date ≤ now)
    (order : now ≤ later) : t.carried C later = C.weighed later evidence := by
  simp only [Totals.carried, clock, sums]
  exact mapValues_weighed before order

/-- Batches whose times do not go back, none with evidence from after its time. -/
structure Ordered (batches : List (τ × List (Piece α τ M))) : Prop where
  times : batches.Pairwise fun b b' => b.1 ≤ b'.1
  dates : ∀ b ∈ batches, ∀ e ∈ b.2, e.date ≤ b.1

omit [AddCommMonoid M] [DecidableEq α] in
theorem Ordered.init {batches : List (τ × List (Piece α τ M))} {b : τ × List (Piece α τ M)}
    (h : Ordered (batches ++ [b])) : Ordered batches where
  times := (List.pairwise_append.mp h.times).1
  dates := fun b' member => h.dates b' (List.mem_append_left _ member)

omit [AddCommMonoid M] [DecidableEq α] in
theorem Ordered.append {batches : List (τ × List (Piece α τ M))} {b : τ × List (Piece α τ M)}
    (h : Ordered batches) (times : ∀ b' ∈ batches, b'.1 ≤ b.1) (dates : ∀ e ∈ b.2, e.date ≤ b.1) :
    Ordered (batches ++ [b]) where
  times := by
    refine List.pairwise_append.mpr ⟨h.times, List.pairwise_singleton _ _, ?_⟩
    rintro b' member b'' within
    rw [List.mem_singleton.mp within]
    exact times b' member
  dates := by
    intro b' member
    rcases List.mem_append.mp member with old | new
    · exact h.dates b' old
    · rw [List.mem_singleton.mp new]
      exact dates

end

variable {α τ M : Type} [Preorder τ]

/-- The last batch is no earlier than any evidence before it. -/
theorem Ordered.date_le_last {batches : List (τ × List (Piece α τ M))} {b : τ × List (Piece α τ M)}
    (h : Ordered (batches ++ [b])) : ∀ e ∈ batches.flatMap Prod.snd, e.date ≤ b.1 := by
  intro e member
  obtain ⟨b', within, here⟩ := List.mem_flatMap.mp member
  exact (h.init.dates b' within e here).trans
    ((List.pairwise_append.mp h.times).2.2 b' within b List.mem_cons_self)

variable [AddCommMonoid M] [DecidableEq α] {C : Carry α τ M}

/-- Batch by batch, the totals are what the whole evidence weighs at the time of the last batch. -/
theorem Totals.sums_foldl_take {batches : List (τ × List (Piece α τ M))}
    {last : τ × List (Piece α τ M)} (ordered : Ordered (batches ++ [last])) :
    ((batches ++ [last]).foldl (Totals.take C) {}).sums =
      C.weighed last.1 ((batches ++ [last]).flatMap Prod.snd) := by
  -- induction on the batches, the last one taken off
  induction batches using List.reverseRecOn generalizing last with
  | nil => simp [Totals.take, Totals.carried, Carry.weighed]
  | append_singleton batches b ih =>
    have inner := ih ordered.init
    have clock : ((batches ++ [b]).foldl (Totals.take C) {}).clock = some b.1 := by
      rw [List.foldl_append]
      rfl
    have order : b.1 ≤ last.1 :=
      (List.pairwise_append.mp ordered.times).2.2 b (by simp) last List.mem_cons_self
    have before : ∀ e ∈ (batches ++ [b]).flatMap Prod.snd, e.date ≤ b.1 := by
      intro e member
      rw [List.flatMap_append, List.mem_append] at member
      rcases member with early | late
      · exact ordered.init.date_le_last e early
      · exact ordered.init.dates b (by simp) e (by simpa using late)
    rw [List.foldl_append, List.flatMap_append, weighed_append]
    simp only [List.foldl_cons, List.foldl_nil, Totals.take, List.flatMap_cons, List.flatMap_nil,
      List.append_nil]
    rw [Totals.carried_of_weighed clock inner before order]

end Fading
