import DostReview.Review.Duplicates

/-!
# Rejections leave no trace

Two runs of the service: one as it happened, and one in which some of the calls that the
gate rejected never take a step. The second can take every other step of the first, at the
same times and with the same answers. Its tables differ in audit rows only, so no verdict
of the other calls changes.
-/
namespace DostReview.Review

variable {σ : Type} {cfg : Config σ} {db db' : Db σ} {v v' : View σ} {m : Move σ}
  {st : Option (Stmt σ)}

/-! ### Tables up to audit rows -/

/-- The tables are the same but for audit rows. -/
structure Twins (db db' : Db σ) : Prop where
  accepted : ∀ id row, row.Accepted →
    (db.reviews.find? id = some row ↔ db'.reviews.find? id = some row)
  reputations : db'.reputations = db.reputations
  batches : db'.batches = db.batches

namespace Twins

theorem refl (db : Db σ) : Twins db db := ⟨fun _ _ _ => Iff.rfl, rfl, rfl⟩

theorem submitted (h : Twins db db') (id : Uuid) : Submitted db id ↔ Submitted db' id := by
  constructor
  · rintro ⟨row, found, accepted⟩
    exact ⟨row, (h.accepted id row accepted).mp found, accepted⟩
  · rintro ⟨row, found, accepted⟩
    exact ⟨row, (h.accepted id row accepted).mpr found, accepted⟩

/-- What counts accepted rows only counts the same in both. -/
theorem count (h : Twins db db') {p : ReviewRow → Bool}
    (accepts : ∀ row, p row = true → row.Accepted) : db'.reviews.count p = db.reviews.count p := by
  apply Table.count_congr
  intro id
  constructor
  · rintro ⟨row, found, holds⟩
    exact ⟨row, (h.accepted id row (accepts row holds)).mpr found, holds⟩
  · rintro ⟨row, found, holds⟩
    exact ⟨row, (h.accepted id row (accepts row holds)).mp found, holds⟩

theorem counts (h : Twins db db') (rater target : Uuid) (since : Time) :
    db'.reviews.count (countsFrom rater target since) =
      db.reviews.count (countsFrom rater target since) := by
  apply h.count
  intro row holds
  simp only [countsFrom, decide_eq_true_eq] at holds
  exact holds.2.2.2

end Twins

theorem alreadySubmitted_iff {review : DostReview} :
    alreadySubmitted db review = true ↔ Submitted db review.reviewId := by
  unfold alreadySubmitted Submitted
  split
  next absent => simp [absent]
  next row found => simp [found]

/-- The accepting upsert sees no more of the table than whether the review is on file. -/
theorem insertGated_eq (clean : Clean db) (review : DostReview) (eventId : Option Uuid) (now : Time) :
    insertGated db review eventId now = none ∧ Submitted db review.reviewId ∨
      insertGated db review eventId now = some (gatedRow review eventId now) ∧
        ¬Submitted db review.reviewId := by
  cases written : insertGated db review eventId now with
  | some row =>
    obtain ⟨rfl, free⟩ := insertGated_spec clean written
    exact .inr ⟨rfl, fun onFile => onFile.not_replaceable free⟩
  | none =>
    refine .inl ⟨rfl, ?_⟩
    unfold insertGated at written
    split at written
    · cases written
    next row found =>
      split at written
      · cases written
      next accepted => exact ⟨row, found, accepted⟩

theorem persistRejected_isSome (review : DostReview) (eventId : Option Uuid) (code : GateCode)
    (now : Time) :
    (persistRejected db review eventId code now).isSome = true ↔ ¬Submitted db review.reviewId := by
  unfold persistRejected Submitted
  split
  next absent => simp [absent]
  next row found =>
    by_cases rejected : row.status = .gateRejected <;> simp [found, rejected]

namespace Twins

theorem alreadySubmitted (h : Twins db db') (review : DostReview) :
    DostReview.Review.alreadySubmitted db' review = DostReview.Review.alreadySubmitted db review := by
  rw [Bool.eq_iff_iff, alreadySubmitted_iff, alreadySubmitted_iff, h.submitted]

theorem insertGated (h : Twins db db') (clean : Clean db) (clean' : Clean db') (review : DostReview)
    (eventId : Option Uuid) (now : Time) :
    DostReview.Review.insertGated db' review eventId now =
      DostReview.Review.insertGated db review eventId now := by
  rcases insertGated_eq clean review eventId now with ⟨eq, on⟩ | ⟨eq, off⟩ <;>
    rcases insertGated_eq clean' review eventId now with ⟨eq', on'⟩ | ⟨eq', off'⟩
  · rw [eq, eq']
  · exact absurd ((h.submitted _).mp on) off'
  · exact absurd ((h.submitted _).mpr on') off
  · rw [eq, eq']

/-! ### The claim -/

theorem mem_open (h : Twins db db') (skipped : List Uuid) (row : ReviewRow) :
    (row ∈ db.reviews.rows.filter fun row => row.status = .gated ∧ row.id ∉ skipped) ↔
      row ∈ db'.reviews.rows.filter fun row => row.status = .gated ∧ row.id ∉ skipped := by
  simp only [List.mem_filter, decide_eq_true_eq]
  refine and_congr_left fun gated => ?_
  have accepted : row.Accepted := by simp [gated.1]
  have same := h.accepted row.id row accepted
  rwa [Table.find?_eq_some, Table.find?_eq_some, and_iff_left rfl, and_iff_left rfl] at same

theorem picks (h : Twins db db') {limit : ℕ} {skipped ids : List Uuid} :
    Picks db limit skipped ids ↔ Picks db' limit skipped ids := by
  -- the open rows are the same, though perhaps in another order
  have same := h.mem_open skipped
  have length : (db.reviews.rows.filter fun row => row.status = .gated ∧ row.id ∉ skipped).length =
      (db'.reviews.rows.filter fun row => row.status = .gated ∧ row.id ∉ skipped).length := by
    have counted := h.count (p := fun row => row.status = .gated ∧ row.id ∉ skipped) fun row holds => by
      simp only [decide_eq_true_eq] at holds
      simp [holds.1]
    simpa only [Table.count, List.countP_eq_length_filter] using counted.symm
  unfold Picks
  simp only [List.mem_map, same, length]

theorem claimedRows (h : Twins db db') {batchId : Uuid} {limit : ℕ} {skipped ids : List Uuid}
    (picks : Picks db limit skipped ids) :
    DostReview.Review.claimedRows db' batchId ids = DostReview.Review.claimedRows db batchId ids := by
  unfold DostReview.Review.claimedRows
  apply List.filterMap_congr
  intro id picked
  obtain ⟨row, found, gated⟩ := picks.gated picked
  rw [found, (h.accepted id row (by simp [gated])).mp found]

/-! ### Statements -/

theorem symm (h : Twins db db') : Twins db' db :=
  ⟨fun id row accepted => (h.accepted id row accepted).symm, h.reputations.symm, h.batches.symm⟩

/-- An audit row in one of the two. -/
theorem audit (h : Twins db db') {written : List Uuid} (touch : Touches db written st)
    (rejects : ∀ x, st = some x → ∃ row, x = .putReview row ∧ row.status = .gateRejected) :
    Twins (db.after st) db' := by
  cases st with
  | none => exact h
  | some x =>
    obtain ⟨new, rfl, rejected⟩ := rejects x rfl
    have free : Replaceable db new.id := by
      cases touch with
      | wrote _ free => exact free
      | updated _ plain => exact absurd rfl (plain new)
    refine ⟨fun id row accepted => ?_, h.reputations, ?_⟩
    · rw [← h.accepted id row accepted]
      simp only [Db.after, Stmt.find?_exec_putReview]
      split
      next mine =>
        -- no accepted row has this id, before or after
        constructor
        · rintro ⟨⟩
          exact absurd rejected accepted
        · intro found
          exact absurd (free row (mine ▸ found)) accepted
      next => exact Iff.rfl
    · rw [h.batches]
      exact (Table.update_id db.batches (Stmt.onBatch_id (.putReview new)) fun _ => rfl).symm

/-- The same statement in both. -/
theorem after (h : Twins db db') {written written' : List Uuid} (touch : Touches db written st)
    (touch' : Touches db' written' st) : Twins (db.after st) (db'.after st) := by
  cases st with
  | none => exact h
  | some x =>
    refine ⟨fun id row accepted => ?_, ?_, ?_⟩
    · by_cases put : ∃ new, x = .putReview new
      · obtain ⟨new, rfl⟩ := put
        simp only [Db.after, Stmt.find?_exec_putReview]
        split
        · exact Iff.rfl
        · exact h.accepted id row accepted
      · have plain : ∀ new, x ≠ .putReview new := fun new same => put ⟨new, same⟩
        simp only [Db.after, Stmt.find?_exec x plain, Option.map_eq_some_iff]
        -- an accepted row after an UPDATE was accepted before it
        have before : ∀ {d : Db σ} {w : List Uuid} {old : ReviewRow}, Touches d w (some x) →
            d.reviews.find? id = some old → x.onReview old = row → old.Accepted := by
          intro d w old touch found same rejected
          cases touch with
          | wrote new => exact plain new rfl
          | updated _ _ spares =>
            rw [spares id old found rejected] at same
            exact accepted (same ▸ rejected)
        constructor
        · rintro ⟨old, found, same⟩
          exact ⟨old, (h.accepted id old (before touch found same)).mp found, same⟩
        · rintro ⟨old, found, same⟩
          exact ⟨old, (h.accepted id old (before touch' found same)).mpr found, same⟩
    · cases x <;> simp only [Db.after, Stmt.exec, h.reputations]
    · cases x <;> simp only [Db.after, Stmt.exec, h.batches]

end Twins

/-! ### One step of a call in the two runs -/

/-- The two views: tables up to audit rows, one time, and no more locks or writes of other calls
in the second. -/
structure Narrows (v v' : View σ) : Prop where
  db : Twins v.db v'.db
  now : v'.now = v.now
  locked : ∀ k, k ∈ v'.locked → k ∈ v.locked
  written : ∀ id, id ∈ v'.written → id ∈ v.written

theorem Worker.advance_narrows (h : Narrows v v') {w w' : Worker σ}
    (moved : w.advance cfg v m = some (w', st)) : w.advance cfg v' m = some (w', st) := by
  cases m with
  | crash | clock | onboard | engine | uuid => exact moved
  | claim skipped ids r =>
    simp only [advance] at moved ⊢
    split at moved
    next here =>
      split at moved
      next picks =>
        rw [if_pos (h.db.picks.mp picks), h.db.claimedRows picks]
        exact moved
      next => cases moved
    next => cases moved
  | reply r =>
    simp only [advance] at moved ⊢
    split at moved
    next work here =>
      rw [h.db.reputations]
      exact moved
    next work stored out here =>
      split at moved
      · cases moved
      next free =>
        have free' : ¬∃ row ∈ work.rows, row.id ∈ v'.written := by
          rintro ⟨row, mem, writing⟩
          exact free ⟨row, mem, h.written _ writing⟩
        rw [if_neg free', h.now]
        exact moved
    next work row todo willRetry handler here =>
      split at moved
      · cases moved
      next free =>
        rw [if_neg fun writing => free (h.written _ writing), h.now]
        exact moved
    next stats here =>
      rw [h.now]
      exact moved
    next e here =>
      rw [h.now]
      exact moved
    next here => exact moved
    next => cases moved

theorem Starter.advance_narrows (h : Narrows v v') {b b' : Starter}
    (moved : b.advance cfg v m = some (b', st)) : b.advance cfg v' m = some (b', st) := by
  have swept : sweptIds cfg v' = sweptIds cfg v := by
    simp only [sweptIds, h.db.batches, h.now]
  cases m with
  | crash | clock | onboard | engine | claim => exact moved
  | uuid id r =>
    simp only [advance] at moved ⊢
    rw [h.db.batches]
    exact moved
  | reply r =>
    simp only [advance] at moved ⊢
    split at moved
    next here =>
      rw [swept, h.now]
      exact moved
    next ids here => exact moved
    next here =>
      rw [h.now]
      exact moved
    next start here =>
      split at moved
      next ok =>
        split at moved
        · cases moved
        next free =>
          rw [if_pos ok, if_neg fun holding => free (h.locked _ holding)]
          exact moved
      next bad =>
        rw [if_neg bad]
        exact moved
    next start here =>
      rw [h.db.batches]
      exact moved
    next batchId started row here => exact moved
    next => cases moved

/-- The same call, or both about to commit an audit row that need not be the same. -/
inductive Gate.Alike (g : Gate) : Gate → Prop
  | same : Alike g g
  | audit (start : Time) (code : GateCode) (row row' : Option ReviewRow) :
      g.phase = .committing start (.rejected code) row → row.map (·.id) = row'.map (·.id) →
      Alike g (g.enter (.committing start (.rejected code) row'))

theorem Gate.Alike.lock {g g' : Gate} (h : g.Alike g') : g'.lock cfg = g.lock cfg := by
  cases h with
  | same => rfl
  | audit start code row row' here => simp [Gate.lock, Gate.enter, Gate.pairLock, here]

theorem Gate.Alike.written {g g' : Gate} (h : g.Alike g') :
    g'.written.map (·.id) = g.written.map (·.id) := by
  cases h with
  | same => rfl
  | audit start code row row' here ids => simp [Gate.written, Gate.enter, here, ids]

/-- Nothing takes effect but an audit row. -/
def AuditOnly (st : Option (Stmt σ)) : Prop :=
  ∀ x, st = some x → ∃ row, x = .putReview row ∧ row.status = .gateRejected

theorem AuditOnly.none : AuditOnly (none : Option (Stmt σ)) := by
  rintro x ⟨⟩

theorem auditOnly_map {row : Option ReviewRow}
    (rejected : ∀ r, row = some r → r.status = .gateRejected) :
    AuditOnly (row.map (Stmt.putReview (σ := σ))) := by
  intro x effect
  obtain ⟨r, rfl, rfl⟩ := Option.map_eq_some_iff.mp effect
  exact ⟨r, rfl, rejected r rfl⟩

theorem persistRejected_ids (h : Twins db db') (clean : Clean db) (clean' : Clean db')
    (review : DostReview) (eventId : Option Uuid) (code : GateCode) (now : Time) :
    (persistRejected db review eventId code now).map (·.id) =
      (persistRejected db' review eventId code now).map (·.id) := by
  have same : (persistRejected db review eventId code now).isSome = true ↔
      (persistRejected db' review eventId code now).isSome = true := by
    rw [persistRejected_isSome, persistRejected_isSome, h.submitted]
  cases first : persistRejected db review eventId code now with
  | none =>
    cases second : persistRejected db' review eventId code now with
    | none => rfl
    | some row => simp [first, second] at same
  | some row =>
    cases second : persistRejected db' review eventId code now with
    | none => simp [first, second] at same
    | some row' =>
      simp only [Option.map_some, (persistRejected_spec clean first).1,
        (persistRejected_spec clean' second).1]

/-- A step of a call of the gate can be taken in the second run as well, to a call alike, and
what takes effect is the same or an audit row. -/
theorem Gate.advance_narrows (h : Narrows v v') (clean : Clean v.db) (clean' : Clean v'.db)
    {g g₁ : Gate} (moved : g.advance cfg v m = some (g₁, st)) :
    ∃ g₁' st', g.advance cfg v' m = some (g₁', st') ∧ g₁.Alike g₁' ∧
      (st' = st ∨ AuditOnly st ∧ AuditOnly st') := by
  have free : g.review.reviewId ∉ v.written → g.review.reviewId ∉ v'.written :=
    fun free writing => free (h.written _ writing)
  cases m with
  | crash | onboard | claim | engine | uuid => exact ⟨g₁, st, moved, .same, .inl rfl⟩
  | clock =>
    simp only [advance] at moved ⊢
    rw [h.now]
    exact ⟨g₁, st, moved, .same, .inl rfl⟩
  | reply r =>
    simp only [advance] at moved ⊢
    split at moved
    next here =>
      split at moved
      next ready =>
        rw [if_pos ⟨ready.1, free ready.2⟩]
        cases moved
        refine ⟨_, _, rfl, .same, .inr ⟨?_, ?_⟩⟩ <;> intro x effect <;>
          obtain ⟨row, written, eq⟩ := Option.bind_eq_some_iff.mp effect
        · exact ⟨row, (Reply.eq_of_effect eq).symm, (persistRejected_spec clean written).2.2.1⟩
        · exact ⟨row, (Reply.eq_of_effect eq).symm, (persistRejected_spec clean' written).2.2.1⟩
      next => cases moved
    next verdict here =>
      rw [h.now]
      exact ⟨g₁, st, moved, .same, .inl rfl⟩
    next verdict start here =>
      split at moved
      · cases moved
      next unlocked =>
        rw [if_neg fun holding => unlocked (h.locked _ holding)]
        exact ⟨g₁, st, moved, .same, .inl rfl⟩
    next verdict start here =>
      simp only [checked, h.db.alreadySubmitted]
      exact ⟨g₁, st, moved, .same, .inl rfl⟩
    next start since here =>
      simp only [counted, h.db.counts]
      exact ⟨g₁, st, moved, .same, .inl rfl⟩
    next start code here =>
      split at moved
      · cases moved
      next unwritten =>
        -- the audit rows may differ, but both are written or neither
        rw [if_neg (free unwritten)]
        cases moved
        exact ⟨_, _, rfl, .audit start code _ _ rfl (persistRejected_ids h.db clean clean' _ _ _ _),
          .inl rfl⟩
    next here _ => exact ⟨g₁, st, moved, .same, .inl rfl⟩
    next start here =>
      split at moved
      · cases moved
      next unwritten =>
        rw [if_neg (free unwritten)]
        simp only [inserted, h.db.insertGated clean clean']
        exact ⟨g₁, st, moved, .same, .inl rfl⟩
    next => exact ⟨g₁, st, moved, .same, .inl rfl⟩
    next => exact ⟨g₁, st, moved, .same, .inl rfl⟩
    next => exact ⟨g₁, st, moved, .same, .inl rfl⟩
    next => cases moved
    next => cases moved
    next => cases moved
    next => exact ⟨g₁, st, moved, .same, .inl rfl⟩

/-- The same for a call that is alike. -/
theorem Gate.Alike.advance (h : Narrows v v') (clean : Clean v.db) (clean' : Clean v'.db)
    {g g' g₁ : Gate} (alike : g.Alike g') (sound : g.Sound v.db) (sound' : g'.Sound v'.db)
    (moved : g.advance cfg v m = some (g₁, st)) :
    ∃ g₁' st', g'.advance cfg v' m = some (g₁', st') ∧ g₁.Alike g₁' ∧
      (st' = st ∨ AuditOnly st ∧ AuditOnly st') := by
  cases alike with
  | same => exact Gate.advance_narrows h clean clean' moved
  | audit start code row row' here ids =>
    have rejects : AuditOnly (row.map (Stmt.putReview (σ := σ))) := by
      simp only [Gate.Sound, here] at sound
      exact auditOnly_map fun r written => (sound r written).2.2.1
    have rejects' : AuditOnly (row'.map (Stmt.putReview (σ := σ))) := by
      simp only [Gate.Sound, Gate.enter] at sound'
      exact auditOnly_map fun r written => (sound' r written).2.2.1
    cases m with
    | crash =>
      simp only [Gate.advance, Gate.ended, Gate.enter, here, Bool.false_eq_true, if_false] at moved ⊢
      cases moved
      exact ⟨_, _, rfl, .same, .inl rfl⟩
    | clock | onboard | claim | engine | uuid => simp [Gate.advance, here] at moved
    | reply r =>
      -- committed, lost or failed
      cases r with
      | ok | lost =>
        simp only [Gate.advance, Gate.enter, here, Option.some.injEq, Prod.mk.injEq] at moved ⊢
        obtain ⟨rfl, rfl⟩ := moved
        exact ⟨_, _, ⟨rfl, rfl⟩, .same, .inr ⟨rejects, rejects'⟩⟩
      | failed =>
        simp only [Gate.advance, Gate.enter, here, Option.some.injEq, Prod.mk.injEq] at moved ⊢
        obtain ⟨rfl, rfl⟩ := moved
        exact ⟨_, _, ⟨rfl, rfl⟩, .same, .inl rfl⟩

/-! ### What becomes of a call -/

/-- What a run can make of a call: the kind stays, and a call of the gate that has ended stays
as it is. -/
def Call.Becomes : Call σ → Call σ → Prop
  | .gate g, .gate g' => g'.review = g.review ∧ g'.eventId = g.eventId ∧ (g.ended = true → g' = g)
  | .worker _, .worker _ => True
  | .starter _, .starter _ => True
  | _, _ => False

theorem Call.Becomes.refl (c : Call σ) : c.Becomes c := by
  cases c with
  | gate g => exact ⟨rfl, rfl, fun _ => rfl⟩
  | worker | starter => trivial

theorem Call.Becomes.trans {c c' c'' : Call σ} (h : c.Becomes c') (h' : c'.Becomes c'') :
    c.Becomes c'' := by
  cases c <;> cases c' <;> cases c'' <;> try first | trivial | exact h.elim | exact h'.elim
  obtain ⟨review, event, still⟩ := h
  obtain ⟨review', event', still'⟩ := h'
  refine ⟨review'.trans review, event'.trans event, fun ended => ?_⟩
  obtain rfl := still ended
  exact still' ended

theorem Gate.not_ended_of_advance {g g' : Gate} (moved : g.advance cfg v m = some (g', st)) :
    g.ended = false := by
  cases ended : g.ended with
  | false => rfl
  | true =>
    unfold Gate.ended at ended
    split at ended
    next result here => cases m <;> simp [Gate.advance, Gate.ended, here] at moved
    next here => cases m <;> simp [Gate.advance, Gate.ended, here] at moved
    next => cases ended

theorem State.step_call {s s' : State σ} {a : Action σ} (step : s.step cfg a = some s') {i : ℕ}
    {c : Call σ} (here : s.calls[i]? = some c) : ∃ c', s'.calls[i]? = some c' ∧ c.Becomes c' := by
  have within : i < s.calls.length := (List.getElem?_eq_some_iff.mp here).1
  cases a with
  | tick d =>
    cases step
    exact ⟨c, here, .refl c⟩
  | request r =>
    cases step
    exact ⟨c, by rw [List.getElem?_append_left within, here], .refl c⟩
  | act j m =>
    obtain ⟨d, d', st, there, moved, rfl⟩ := State.acted step
    by_cases mine : j = i
    · subst mine
      cases here.symm.trans there
      refine ⟨d', List.getElem?_set_self within, ?_⟩
      cases c <;> obtain ⟨⟨x, _⟩, moved, eq⟩ := Option.map_eq_some_iff.mp moved <;> cases eq
      · obtain ⟨phase, rfl, -⟩ := Gate.step_of_advance moved
        refine ⟨rfl, rfl, fun ended => ?_⟩
        cases (Gate.not_ended_of_advance moved).symm.trans ended
      · trivial
      · trivial
    · exact ⟨c, by rw [List.getElem?_set_ne mine, here], .refl c⟩

theorem State.perform_call {s s' : State σ} {actions : List (Action σ)}
    (run : Runs.perform (State.step cfg) s actions = some s') {i : ℕ} {c : Call σ}
    (here : s.calls[i]? = some c) : ∃ c', s'.calls[i]? = some c' ∧ c.Becomes c' := by
  induction actions generalizing s c with
  | nil =>
    cases run
    exact ⟨c, here, .refl c⟩
  | cons a actions ih =>
    obtain ⟨t, step, rest⟩ := Option.bind_eq_some_iff.mp run
    obtain ⟨d, there, first⟩ := State.step_call step here
    obtain ⟨c', final, later⟩ := ih rest there
    exact ⟨c', final, first.trans later⟩

/-! ### Two runs -/

/-- The action is a step of one of these calls. A request alone only gives its call a place. -/
def Action.StepOf (dropped : Finset ℕ) : Action σ → Prop
  | .act i _ => i ∈ dropped
  | _ => False

instance (dropped : Finset ℕ) : ∀ a : Action σ, Decidable (a.StepOf dropped)
  | .tick _ => isFalse id
  | .request _ => isFalse id
  | .act i _ => inferInstanceAs (Decidable (i ∈ dropped))

/-- The actions without the steps of these calls. -/
def without (dropped : Finset ℕ) (actions : List (Action σ)) : List (Action σ) :=
  actions.filter fun a => ¬a.StepOf dropped

inductive Call.Alike : Call σ → Call σ → Prop
  | gate {g g' : Gate} : g.Alike g' → Alike (.gate g) (.gate g')
  | worker (w : Worker σ) : Alike (.worker w) (.worker w)
  | starter (b : Starter) : Alike (.starter b) (.starter b)

theorem Call.Alike.refl (c : Call σ) : c.Alike c := by
  cases c with
  | gate g => exact .gate .same
  | worker w => exact .worker w
  | starter b => exact .starter b

theorem Call.Alike.lock {c c' : Call σ} (h : c.Alike c') : c'.lock cfg = c.lock cfg := by
  cases h with
  | gate alike => exact alike.lock
  | worker | starter => rfl

theorem Call.Alike.pending {c c' : Call σ} (h : c.Alike c') : c'.pending = c.pending := by
  cases h with
  | gate alike => exact alike.written
  | worker | starter => rfl

/-- The second run has every call of the first at its place: the dropped ones have not taken a
step, the others have come as far. -/
structure Shadows (dropped : Finset ℕ) (s s' : State σ) : Prop where
  db : Twins s.db s'.db
  now : s'.now = s.now
  length : s'.calls.length = s.calls.length
  kept : ∀ (i : ℕ) (c : Call σ), i ∉ dropped → s.calls[i]? = some c →
    ∃ c', s'.calls[i]? = some c' ∧ c.Alike c'
  idle : ∀ (i : ℕ) (c : Call σ), i ∈ dropped → s.calls[i]? = some c →
    ∃ g, c = .gate g ∧ s'.calls[i]? = some (.gate ⟨g.review, g.eventId, .entry⟩)

namespace Shadows

variable {dropped : Finset ℕ} {s s' : State σ}

theorem refl (s : State σ) (new : ∀ i ∈ dropped, s.calls.length ≤ i) : Shadows dropped s s where
  db := .refl s.db
  now := rfl
  length := rfl
  kept _ c _ here := ⟨c, here, .refl c⟩
  idle i c drop here := by
    have within : i < s.calls.length := (List.getElem?_eq_some_iff.mp here).1
    have past := new i drop
    omega

/-- What a call of the second run holds or has written, so has the one of the first. -/
theorem back (cfg : Config σ) (h : Shadows dropped s s') {i : ℕ} {c' : Call σ}
    (here : s'.calls[i]? = some c') :
    ∃ c, s.calls[i]? = some c ∧ (c'.lock cfg = none ∨ c'.lock cfg = c.lock cfg) ∧
      (c'.pending = none ∨ c'.pending = c.pending) := by
  have within : i < s.calls.length := h.length ▸ (List.getElem?_eq_some_iff.mp here).1
  refine ⟨s.calls[i], List.getElem?_eq_getElem within, ?_⟩
  by_cases drop : i ∈ dropped
  · obtain ⟨g, -, there⟩ := h.idle i _ drop (List.getElem?_eq_getElem within)
    cases here.symm.trans there
    exact ⟨.inl rfl, .inl rfl⟩
  · obtain ⟨c, there, alike⟩ := h.kept i _ drop (List.getElem?_eq_getElem within)
    cases here.symm.trans there
    exact ⟨.inr alike.lock, .inr alike.pending⟩

theorem narrows (h : Shadows dropped s s') (i : ℕ) : Narrows (s.view cfg i) (s'.view cfg i) where
  db := h.db
  now := h.now
  locked k there := by
    obtain ⟨c', other, held⟩ := List.mem_filterMap.mp there
    obtain ⟨j, ne, hj⟩ := Pool.mem_others.mp other
    obtain ⟨c, old, lock, -⟩ := h.back cfg hj
    refine List.mem_filterMap.mpr ⟨c, Pool.mem_others.mpr ⟨j, ne, old⟩, ?_⟩
    rcases lock with none | same
    · cases none.symm.trans held
    · rw [← same, held]
  written id there := by
    obtain ⟨c', other, writing⟩ := List.mem_filterMap.mp there
    obtain ⟨j, ne, hj⟩ := Pool.mem_others.mp other
    obtain ⟨c, old, -, pending⟩ := h.back cfg hj
    refine List.mem_filterMap.mpr ⟨c, Pool.mem_others.mpr ⟨j, ne, old⟩, ?_⟩
    rcases pending with none | same
    · cases none.symm.trans writing
    · rw [← same, writing]

end Shadows

theorem Call.Alike.advance (h : Narrows v v') (clean : Clean v.db) (clean' : Clean v'.db)
    {c c' c₁ : Call σ} (alike : c.Alike c') (sound : c.Sound v.db) (sound' : c'.Sound v'.db)
    (moved : c.advance cfg v m = some (c₁, st)) :
    ∃ c₁' st', c'.advance cfg v' m = some (c₁', st') ∧ c₁.Alike c₁' ∧
      (st' = st ∨ AuditOnly st ∧ AuditOnly st') := by
  cases alike with
  | gate alike =>
    obtain ⟨⟨x, _⟩, moved, eq⟩ := Option.map_eq_some_iff.mp moved
    cases eq
    obtain ⟨g₁', st', moved', alike', effect⟩ := alike.advance h clean clean' sound sound' moved
    exact ⟨.gate g₁', st', by simp [Call.advance, moved'], .gate alike', effect⟩
  | worker w =>
    obtain ⟨⟨x, _⟩, moved, eq⟩ := Option.map_eq_some_iff.mp moved
    cases eq
    exact ⟨.worker x, st, by simp [Call.advance, Worker.advance_narrows h moved], .worker x, .inl rfl⟩
  | starter b =>
    obtain ⟨⟨x, _⟩, moved, eq⟩ := Option.map_eq_some_iff.mp moved
    cases eq
    exact ⟨.starter x, st, by simp [Call.advance, Starter.advance_narrows h moved], .starter x,
      .inl rfl⟩

/-- A rejecting call writes an audit row at most, unless it has just ended in another way. -/
theorem Gate.Step.audit_or_ended {g : Gate} {phase : GatePhase} (step : g.Step cfg v m phase st)
    (clean : Clean v.db) (sound : g.Sound v.db) :
    AuditOnly st ∨ phase = .gone ∨ phase = .returned .passed := by
  cases step with
  | selfReview r here selfish free =>
    left
    intro x effect
    obtain ⟨row, written, eq⟩ := Option.bind_eq_some_iff.mp effect
    exact ⟨row, (Reply.eq_of_effect eq).symm, (persistRejected_spec clean written).2.2.1⟩
  | committed start result row here =>
    cases result with
    | passed => exact .inr (.inr rfl)
    | rejected code =>
      simp only [Gate.Sound, here] at sound
      exact .inl (auditOnly_map fun r written => (sound r written).2.2.1)
  | lost => exact .inr (.inl rfl)
  | _ => exact .inl .none

namespace Shadows

variable {dropped : Finset ℕ} {s s' t : State σ} {a : Action σ}

/-- A step of the first run that is no step of a dropped call is one of the second. -/
theorem keep (h : Shadows dropped s s') (sound : s.Sound) (sound' : s'.Sound)
    (step : s.step cfg a = some t) (other : ¬a.StepOf dropped)
    (gates : ∀ i c, i ∈ dropped → t.calls[i]? = some c → ∃ g, c = Call.gate g) :
    ∃ t', s'.step cfg a = some t' ∧ Shadows dropped t t' := by
  cases a with
  | tick d =>
    cases step
    exact ⟨_, rfl, h.db, by rw [h.now], h.length, h.kept, h.idle⟩
  | request r =>
    cases step
    refine ⟨_, rfl, h.db, h.now, by simp [h.length], fun i c stays hi => ?_, fun i c drop hi => ?_⟩
    · rcases Pool.getElem?_append_cases hi with ⟨rfl, rfl⟩ | old
      · refine ⟨r.call, ?_, .refl _⟩
        rw [← h.length]
        exact List.getElem?_concat_length
      · obtain ⟨c', here, alike⟩ := h.kept i c stays old
        exact ⟨c', by rw [List.getElem?_append_left (List.getElem?_eq_some_iff.mp here).1, here], alike⟩
    · obtain ⟨g, rfl⟩ := gates i c drop hi
      refine ⟨g, rfl, ?_⟩
      rcases Pool.getElem?_append_cases hi with ⟨rfl, new⟩ | old
      · -- a new call of the gate is at its entry
        cases r <;> cases new
        rw [← h.length]
        exact List.getElem?_concat_length
      · obtain ⟨_, same, here⟩ := h.idle i _ drop old
        cases same
        rw [List.getElem?_append_left (List.getElem?_eq_some_iff.mp here).1, here]
  | act i m =>
    obtain ⟨c, c₁, st, here, moved, rfl⟩ := State.acted step
    obtain ⟨c', here', alike⟩ := h.kept i c other here
    obtain ⟨c₁', st', moved', alike', effect⟩ := alike.advance (h.narrows i) sound.clean sound'.clean
      (sound.calls i c here) (sound'.calls i c' here') moved
    have touch := sound.touches_of_advance here moved
    have touch' := sound'.touches_of_advance here' moved'
    refine ⟨_, State.step_act here' moved', ?_, h.now, by simp [h.length], ?_, ?_⟩
    · rcases effect with rfl | ⟨audit, audit'⟩
      · exact h.db.after touch touch'
      · exact ((h.db.audit touch audit).symm.audit touch' audit').symm
    · intro j d stays hj
      rcases Pool.getElem?_set_cases hj with ⟨rfl, rfl⟩ | ⟨ne, old⟩
      · exact ⟨c₁', List.getElem?_set_self (List.getElem?_eq_some_iff.mp here').1, alike'⟩
      · obtain ⟨d', there, same⟩ := h.kept j d stays old
        exact ⟨d', by rw [List.getElem?_set_ne (Ne.symm ne), there], same⟩
    · intro j d drop hj
      rcases Pool.getElem?_set_cases hj with ⟨rfl, -⟩ | ⟨ne, old⟩
      · exact absurd drop other
      · obtain ⟨g, rfl, there⟩ := h.idle j d drop old
        exact ⟨g, rfl, by rw [List.getElem?_set_ne (Ne.symm ne), there]⟩

/-- A step of a dropped call leaves the second run where it is, if the call ends in a
rejection. -/
theorem drop (h : Shadows dropped s s') (sound : s.Sound) (step : s.step cfg a = some t)
    (own : a.StepOf dropped)
    (ends : ∀ i ∈ dropped, ∀ c, t.calls[i]? = some c →
      ∃ g, c = Call.gate g ∧ g.phase ≠ .gone ∧ g.phase ≠ .returned .passed) :
    Shadows dropped t s' := by
  cases a with
  | tick | request => exact own.elim
  | act i m =>
    cases State.stepped step with
    | worker _ _ w phase st here ws | starter _ _ w phase st here ws =>
      obtain ⟨g, same, -⟩ := h.idle i _ own here
      cases same
    | gate _ _ g phase st here gs =>
      have within : i < s.calls.length := (List.getElem?_eq_some_iff.mp here).1
      have rejects : AuditOnly st := by
        obtain ⟨g', same, alive, rejected⟩ := ends i own _ (List.getElem?_set_self within)
        cases same
        rcases gs.audit_or_ended sound.clean (sound.calls i _ here) with audit | gone | passed
        · exact audit
        · exact absurd gone alive
        · exact absurd passed rejected
      refine ⟨h.db.audit (sound.gate here gs) rejects, h.now, by simp [h.length], ?_, ?_⟩
      · intro j d stays hj
        rcases Pool.getElem?_set_cases hj with ⟨rfl, -⟩ | ⟨ne, old⟩
        · exact absurd own stays
        · exact h.kept j d stays old
      · intro j d drop hj
        rcases Pool.getElem?_set_cases hj with ⟨rfl, rfl⟩ | ⟨ne, old⟩
        · obtain ⟨_, same, there⟩ := h.idle j _ drop here
          cases same
          exact ⟨_, rfl, there⟩
        · exact h.idle j d drop old

/-- The whole of the first run, step by step in the second. -/
theorem perform {actions : List (Action σ)} (h : Shadows dropped s s') (sound : s.Sound)
    (sound' : s'.Sound) (run : Runs.perform (State.step cfg) s actions = some t)
    (rejected : ∀ i ∈ dropped, ∃ g code, t.calls[i]? = some (Call.gate g) ∧
      g.phase = .returned (.rejected code)) :
    ∃ t', Runs.perform (State.step cfg) s' (without dropped actions) = some t' ∧
      Shadows dropped t t' := by
  induction actions generalizing s s' with
  | nil =>
    cases run
    exact ⟨s', rfl, h⟩
  | cons a actions ih =>
    obtain ⟨u, step, rest⟩ := Option.bind_eq_some_iff.mp run
    -- what the rejected calls are at the end they have been on the way
    have ends : ∀ i ∈ dropped, ∀ c, u.calls[i]? = some c →
        ∃ g, c = Call.gate g ∧ g.phase ≠ .gone ∧ g.phase ≠ .returned .passed := by
      intro i drop c here
      obtain ⟨g, code, final, phase⟩ := rejected i drop
      obtain ⟨c', there, becomes⟩ := State.perform_call rest here
      cases there.symm.trans final
      cases c with
      | worker | starter => exact becomes.elim
      | gate g₀ =>
        refine ⟨g₀, rfl, fun gone => ?_, fun passed => ?_⟩
        · have same := becomes.2.2 (by simp [Gate.ended, gone])
          rw [same, gone] at phase
          cases phase
        · have same := becomes.2.2 (by simp [Gate.ended, passed])
          rw [same, passed] at phase
          cases phase
    by_cases own : a.StepOf dropped
    · have skipped : without dropped (a :: actions) = without dropped actions := by
        simp [without, own]
      rw [skipped]
      exact ih (h.drop sound step own ends) (sound.step step) sound' rest
    · have taken : without dropped (a :: actions) = a :: without dropped actions := by
        simp [without, own]
      obtain ⟨u', step', h'⟩ := h.keep sound sound' step own fun i c drop here => by
        obtain ⟨g, same, -⟩ := ends i drop c here
        exact ⟨g, same⟩
      obtain ⟨t', run', final⟩ := ih h' (sound.step step) (sound'.step step') rest
      refine ⟨t', ?_, final⟩
      rw [taken, Runs.perform, step', Option.bind_some, run']

end Shadows

/-- Take any run from a reachable state, and any of the calls made in it that the gate has
rejected. The same run without a step of these calls, at the same times and with the same
answers, exists: every other call gets the same verdict, the calls of the batch end the same,
and the tables differ in audit rows at most. -/
theorem rejections_leave_no_trace {s t : State σ}
    (reachable : State.Reachable cfg Runs.Anything s) {actions : List (Action σ)}
    (run : Runs.perform (State.step cfg) s actions = some t) (dropped : Finset ℕ)
    (new : ∀ i ∈ dropped, s.calls.length ≤ i)
    (rejected : ∀ i ∈ dropped, ∃ g code, t.calls[i]? = some (Call.gate g) ∧
      g.phase = .returned (.rejected code)) :
    ∃ t', Runs.perform (State.step cfg) s (without dropped actions) = some t' ∧
      t'.now = t.now ∧
      (∀ i ∉ dropped, ∀ g, t.calls[i]? = some (.gate g) → ∃ g', t'.calls[i]? = some (.gate g') ∧
        ∀ result, g'.phase = .returned result ↔ g.phase = .returned result) ∧
      (∀ i ∉ dropped, ∀ w, t.calls[i]? = some (.worker w) → t'.calls[i]? = some (.worker w)) ∧
      (∀ i ∉ dropped, ∀ b, t.calls[i]? = some (.starter b) → t'.calls[i]? = some (.starter b)) ∧
      (∀ i ∈ dropped, ∀ g, t.calls[i]? = some (.gate g) →
        t'.calls[i]? = some (.gate ⟨g.review, g.eventId, .entry⟩)) ∧
      (∀ id row, row.Accepted →
        (t.db.reviews.find? id = some row ↔ t'.db.reviews.find? id = some row)) ∧
      t'.db.reputations = t.db.reputations ∧ t'.db.batches = t.db.batches := by
  have sound := State.sound reachable
  obtain ⟨t', run', same⟩ := (Shadows.refl s new).perform sound sound run rejected
  refine ⟨t', run', same.now, ?_, ?_, ?_, ?_, same.db.accepted, same.db.reputations, same.db.batches⟩
  · intro i stays g here
    obtain ⟨c', there, alike⟩ := same.kept i _ stays here
    cases alike with
    | gate alike =>
      refine ⟨_, there, fun result => ?_⟩
      cases alike with
      | same => exact Iff.rfl
      | audit start code row row' phase => simp [Gate.enter, phase]
  · intro i stays w here
    obtain ⟨c', there, alike⟩ := same.kept i _ stays here
    cases alike
    exact there
  · intro i stays b here
    obtain ⟨c', there, alike⟩ := same.kept i _ stays here
    cases alike
    exact there
  · intro i drop g here
    obtain ⟨_, equal, there⟩ := same.idle i _ drop here
    cases equal
    exact there

/-- The rejection of the review 7 is dropped from the run in which another rater has it
accepted, up to the commit. -/
theorem rejections_leave_no_trace_resubmission : ∃ t t' : State ℕ,
    Runs.perform (State.step defaults) .start (resubmission ++ [.act 1 (.reply .ok)]) = some t ∧
    Runs.perform (State.step defaults) .start
      (without {0} (resubmission ++ [.act 1 (.reply .ok)])) = some t' ∧
    t.db.reviews.find? 7 = some (gatedRow (sampleReview 7 3) none 9) ∧
    t'.db.reviews.find? 7 = some (gatedRow (sampleReview 7 3) none 9) := by
  have run : Runs.perform (State.step defaults) .start (resubmission ++ [.act 1 (.reply .ok)]) =
      some _ := rfl
  obtain ⟨t', run', -, -, -, -, -, accepted, -⟩ := rejections_leave_no_trace
    (.start ⟨rfl, rfl⟩) run {0} (by simp [State.start]) (by
      intro i drop
      rw [Finset.mem_singleton] at drop
      subst drop
      exact ⟨_, .raterInactive, rfl, rfl⟩)
  refine ⟨_, t', run, run', rfl, ?_⟩
  exact (accepted 7 (gatedRow (sampleReview 7 3) none 9) (by decide)).mp rfl

end DostReview.Review
