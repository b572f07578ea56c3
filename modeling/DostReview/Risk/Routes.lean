import DostReview.Risk.Folding

/-!
# The two routes' answers

What a request leaves in the tables against what its HTTP status says. The engine is free
to answer, to reject with an `{error}` result or to raise, and any store call may fail.
-/
namespace DostReview.Risk

open Locking

variable {C P : Type} (engine : FraudEngine C P) (hashtext : String → ℤ) (clock : DateTime)

/-- A call's own row and all of its folds: what the tables gained from `db` to `db'`. -/
def Recorded (db db' : RiskDb C P) : RiskCall → Prop
  | .record r =>
    db' (.signalEvents r.sessionId) = db (.signalEvents r.sessionId) ++ [signalEventRow r] ∧
    ∃ event out, toConversationEvent r = .ok event ∧
      engine.processConversation r.sessionId (db (.conversationRisk r.sessionId)) [event] = .ok out ∧
      db' (.conversationRisk r.sessionId) = some out.state ∧
      (senderSignals r out.derivedTags ≠ [] →
        ∃ sig, engine.processSignals clock r.srcProfileId
            ((db (.profileRisk r.srcProfileId)).map (·.state)) (senderSignals r out.derivedTags) [] =
              .ok sig ∧
          (db' (.profileRisk r.srcProfileId)).map (·.state) = some sig.state)
  | .outcome o =>
    db' (.outcomeEvents o.profileId) = db (.outcomeEvents o.profileId) ++ [outcomeRow o] ∧
    ∃ sig, engine.processSignals clock o.profileId ((db (.profileRisk o.profileId)).map (·.state))
        [] [outcomeItem o] = .ok sig ∧
      (db' (.profileRisk o.profileId)).map (·.state) = some sig.state

/-- The answer tells the truth: 202 exactly when everything is on file, and any other
status only when nothing changed. -/
def TellsTruth (call : RiskCall) (fault : Option ℕ) (db : RiskDb C P) : Prop :=
  let done := call.handle engine hashtext clock fault db
  (done.1 = 202 ↔ Recorded engine clock db done.2 call) ∧ (done.1 ≠ 202 → done.2 = db)

/-- `post_outcome` passes on the `{error}` of a rejected fold: a known tag, an engine that
rejects the outcome on the stored state, and no failure among the four store calls before
the engine is asked. -/
def PassesRejection (call : RiskCall) (fault : Option ℕ) (db : RiskDb C P) : Prop :=
  ∃ o message, call = .outcome o ∧ o.tag ∈ outcomeTags ∧
    engine.processSignals clock o.profileId ((db (.profileRisk o.profileId)).map (·.state))
      [] [outcomeItem o] = .error (.error message) ∧
    ∀ n, fault = some n → 4 ≤ n

theorem not_recorded_self (call : RiskCall) (db : RiskDb C P) :
    ¬Recorded engine clock db db call := by
  cases call <;> simp [Recorded]

/-- A call that leaves the tables alone tells the truth when it does not answer 202. -/
theorem truth_of_rollback {call : RiskCall} {fault : Option ℕ} {db : RiskDb C P} {status : ℕ}
    (done : call.handle engine hashtext clock fault db = (status, db)) :
    TellsTruth engine hashtext clock call fault db ↔ status ≠ 202 := by
  simp [TellsTruth, done, not_recorded_self]

/-- A committed call tells the truth when it answers 202 and has recorded everything. -/
theorem truth_of_commit {call : RiskCall} {fault : Option ℕ} {db db' : RiskDb C P}
    (done : call.handle engine hashtext clock fault db = (202, db'))
    (recorded : Recorded engine clock db db' call) :
    TellsTruth engine hashtext clock call fault db := by
  simp [TellsTruth, done, recorded]

theorem recorded_of_recordRun {record : SignalRecord} {db db' : RiskDb C P} {a : IngestResponse}
    (ran : RecordRun engine clock record db a db') (stored : a ≠ .duplicate) :
    Recorded engine clock db db' (.record record) := by
  cases ran with
  | duplicate _ => exact absurd rfl stored
  | stored event out tier mapped _ conv none =>
    refine ⟨by simp [storedDb_signalEvents], event, out, mapped, conv, ?_, fun some => absurd none some⟩
    simp [storedDb_conversationRisk]
  | folded event out sig mapped _ conv _ folds =>
    refine ⟨by simp [storedDb_signalEvents], event, out, mapped, conv, ?_, fun _ => ⟨sig, folds, ?_⟩⟩
    · simp [storedDb_conversationRisk]
    · simp [foldedDb_profileRisk, upsertProfile, profileRow]

theorem record_truth (record : SignalRecord) (fault : Option ℕ) (db : RiskDb C P) :
    TellsTruth engine hashtext clock (.record record) fault db := by
  cases h : (ingestRecord engine hashtext clock record).attempt fault db with
  | ok r =>
    obtain ⟨a, db'⟩ := r
    have ran := ingestRecord_run engine hashtext clock (Prog.attempt_ok h)
    -- a repeat answers 200 and leaves the tables as they are
    by_cases dup : a = .duplicate
    · subst dup
      cases ran
      exact (truth_of_rollback engine hashtext clock
        (by simp [RiskCall.handle, Prog.transact, h, serviceResult, signalStatus]; rfl)).mpr
          (by decide)
    · refine truth_of_commit engine hashtext clock ?_ (recorded_of_recordRun engine clock ran dup)
      cases a <;> simp_all [RiskCall.handle, Prog.transact, serviceResult, signalStatus]
  | error e =>
    have done : RiskCall.handle engine hashtext clock (.record record) fault db =
        (signalStatus (serviceResult (.error e)), db) := by
      simp [RiskCall.handle, Prog.transact, h]
    refine (truth_of_rollback engine hashtext clock done).mpr ?_
    rcases e with _ | message | e <;> simp [serviceResult, signalStatus]

/-- An outcome's call whose engine call fails: the error is the engine's unless one of the
four store calls before it failed. -/
theorem ingestOutcome_attempt_error {o : Outcome} {db : RiskDb C P} {e : EngineFailure}
    (fails : engine.processSignals clock o.profileId ((db (.profileRisk o.profileId)).map (·.state))
      [] [outcomeItem o] = .error e) (fault : Option ℕ) :
    (ingestOutcome engine hashtext clock o).attempt fault db =
      if ∀ n, fault = some n → 4 ≤ n then .error (some (ofEngine e)) else .error none := by
  have untouched : reportedDb db o (.profileRisk o.profileId) = db (.profileRisk o.profileId) := by
    simp [reportedDb, Store.write]
  rw [← untouched] at fails
  unfold reportedDb at fails
  simp only [ingestOutcome, transaction, insertOutcome, fold, getProfile, Prog.attempt, outcomeRow,
    Store.write] at fails ⊢
  rw [fails]
  -- lock, INSERT, lock, SELECT: a failure of any of the four comes first
  rcases fault with _ | _ | _ | _ | _ | n <;> simp [Prog.attempt]

/-- The rejection is passed on exactly when the engine's `{error}` is what ends the call. -/
theorem passesRejection_iff {o : Outcome} (known : o.tag ∈ outcomeTags) (fault : Option ℕ)
    (db : RiskDb C P) :
    PassesRejection engine clock (.outcome o) fault db ↔
      ∃ message, (ingestOutcome engine hashtext clock o).attempt fault db =
        .error (some (.engineRejected message)) := by
  constructor
  · rintro ⟨o', message, ⟨⟩, _, fails, reached⟩
    exact ⟨message, by
      rw [ingestOutcome_attempt_error engine hashtext clock fails, if_pos reached, ofEngine]⟩
  · rintro ⟨message, ended⟩
    -- the error is the program's own, so it is the engine's answer to the stored state
    have ran := Prog.attempt_throw ended
    rw [ingestOutcome_run] at ran
    cases sig : engine.processSignals clock o.profileId
        ((db (.profileRisk o.profileId)).map (·.state)) [] [outcomeItem o] with
    | ok out => simp [sig] at ran
    | error e =>
      rw [ingestOutcome_attempt_error engine hashtext clock sig] at ended
      by_cases reached : ∀ n, fault = some n → 4 ≤ n
      · rw [if_pos reached] at ended
        cases e with
        | error message => exact ⟨o, message, rfl, known, sig, reached⟩
        | raised e => simp [ofEngine] at ended
      · simp only [if_neg reached, Except.error.injEq, reduceCtorEq] at ended

theorem recorded_of_outcome {o : Outcome} {db : RiskDb C P} {out : SignalsOutput P}
    (sig : engine.processSignals clock o.profileId ((db (.profileRisk o.profileId)).map (·.state))
      [] [outcomeItem o] = .ok out) :
    Recorded engine clock db (foldedDb (reportedDb db o) o.profileId o.sessionId
      (some ("outcome:" ++ o.tag)) o.evidence out) (.outcome o) := by
  refine ⟨?_, out, sig, ?_⟩
  · simp [reportedDb, Store.write]
  · simp [foldedDb_profileRisk, upsertProfile, profileRow]

theorem outcome_truth (o : Outcome) (fault : Option ℕ) (db : RiskDb C P) :
    TellsTruth engine hashtext clock (.outcome o) fault db ↔
      ¬PassesRejection engine clock (.outcome o) fault db := by
  -- a tag the route does not know is answered 422 before anything is opened
  by_cases known : o.tag ∈ outcomeTags
  · rw [passesRejection_iff engine hashtext clock known]
    cases ended : (ingestOutcome engine hashtext clock o).attempt fault db with
    | ok r =>
      obtain ⟨a, db'⟩ := r
      have ran := Prog.attempt_ok ended
      rw [ingestOutcome_run] at ran
      cases sig : engine.processSignals clock o.profileId
          ((db (.profileRisk o.profileId)).map (·.state)) [] [outcomeItem o] with
      | error e => simp [sig] at ran
      | ok out =>
        simp only [sig, Except.ok.injEq, Prod.mk.injEq] at ran
        obtain ⟨rfl, rfl⟩ := ran
        refine iff_of_true (truth_of_commit engine hashtext clock ?_
          (recorded_of_outcome engine clock sig)) (by simp)
        simp [RiskCall.handle, known, Prog.transact, ended, serviceResult, outcomeStatus]
    | error e =>
      have done : RiskCall.handle engine hashtext clock (.outcome o) fault db =
          (outcomeStatus (serviceResult (.error e)), db) := by
        simp [RiskCall.handle, known, Prog.transact, ended]
      rw [truth_of_rollback engine hashtext clock done]
      rcases e with _ | message | e <;> simp [serviceResult, outcomeStatus]
  · have done : RiskCall.handle engine hashtext clock (.outcome o) fault db = (422, db) := by
      simp [RiskCall.handle, known]
    rw [truth_of_rollback engine hashtext clock done]
    refine iff_of_true (by decide) ?_
    rintro ⟨o', _, ⟨⟩, isKnown, _⟩
    exact known isKnown

/-- A request's answer tells the truth about what was stored unless it is an outcome whose
fold the engine rejected. -/
theorem answer_truth (call : RiskCall) (fault : Option ℕ) (db : RiskDb C P) :
    TellsTruth engine hashtext clock call fault db ↔ ¬PassesRejection engine clock call fault db := by
  cases call with
  | record r =>
    refine iff_of_true (record_truth engine hashtext clock r fault db) ?_
    rintro ⟨o, _, ⟨⟩, _⟩
  | outcome o => exact outcome_truth engine hashtext clock o fault db

def rejectingEngine : FraudEngine Unit Unit where
  processConversation _ _ _ := .error (.error "events must be a list")
  processSignals _ _ _ _ _ := .error (.error "state must be an object")

/-- A rejected outcome is answered 202 with nothing on file. -/
theorem rejected_outcome_accepted :
    ¬∀ (engine : FraudEngine Unit Unit) (hashtext : String → ℤ) (clock : DateTime) (call : RiskCall)
      (fault : Option ℕ) (db : RiskDb Unit Unit), TellsTruth engine hashtext clock call fault db := by
  intro claim
  refine (outcome_truth rejectingEngine (fun _ => 0) ⟨0, 0⟩
    { profileId := "p", tag := "confirmed_fraud" } none RiskDb.empty).mp (claim _ _ _ _ _ _) ?_
  exact ⟨_, _, rfl, by decide, rfl, by simp⟩

end DostReview.Risk
