import DostReview.Risk.Service

/-!
# What one call does on its own

The successful runs of the two service calls, written out on the store: one lemma per
call, from which every later result about the tables is drawn. The programs also keep the
locking discipline that makes concurrent calls equivalent to calls run one by one.
-/
namespace DostReview.Risk

open Locking

variable {C P : Type} (engine : FraudEngine C P) (hashtext : String → ℤ) (clock : DateTime)

/-- The profile's row and its queue after a fold. -/
def foldedDb (db : RiskDb C P) (profileId : String) (sessionId reason : Option String)
    (evidence : JsonObject) (out : SignalsOutput P) : RiskDb C P :=
  let prev := db (.profileRisk profileId)
  let stored := Store.write db (.profileRisk profileId)
    (some (some (upsertProfile (profileRow prev out) prev)))
  if queueAt ≤ out.riskScore ∧ hasOpen (db (.reviewQueue profileId)) = false then
    Store.write stored (.reviewQueue profileId)
      (some (db (.reviewQueue profileId) ++ [queueRow profileId sessionId reason evidence out]))
  else stored

/-- The session's rows and conversation state after a record is stored and folded. -/
def storedDb (db : RiskDb C P) (record : SignalRecord) (out : ConversationOutput C) : RiskDb C P :=
  Store.write
    (Store.write db (.signalEvents record.sessionId)
      (some (db (.signalEvents record.sessionId) ++ [signalEventRow record])))
    (.conversationRisk record.sessionId) (some (some out.state))

def reportedDb (db : RiskDb C P) (o : Outcome) : RiskDb C P :=
  Store.write db (.outcomeEvents o.profileId)
    (some (db (.outcomeEvents o.profileId) ++ [outcomeRow o]))

theorem fold_run (profileId : String) (signals outcomes : List SignalItem)
    (sessionId reason : Option String) (evidence : JsonObject) (db : RiskDb C P) :
    (fold engine hashtext clock profileId signals outcomes sessionId reason evidence).run db =
      match engine.processSignals clock profileId ((db (.profileRisk profileId)).map (·.state))
          signals outcomes with
      | .error e => .error (ofEngine e)
      | .ok out => .ok (foldedAnswer out, foldedDb db profileId sessionId reason evidence out) := by
  simp only [fold, transaction, getProfile, Prog.run, Store.write]
  cases engine.processSignals clock profileId ((db (.profileRisk profileId)).map (·.state))
      signals outcomes with
  | error e => rfl
  | ok out =>
    -- the queue's statement runs from `QUEUE_AT` on, and writes if no OPEN row is there
    by_cases high : queueAt ≤ out.riskScore
    · cases opened : hasOpen (db (.reviewQueue profileId))
      · simp [putProfile, enqueueReview, Prog.run, foldedDb, Store.write, queueRow, high, opened]
      · simp [putProfile, enqueueReview, Prog.run, foldedDb, Store.write, queueRow, high, opened]
    · simp [putProfile, Prog.run, foldedDb, Store.write, high]

/-- How a record's call ends when it succeeds. -/
inductive RecordRun (record : SignalRecord) (db : RiskDb C P) : IngestResponse → RiskDb C P → Prop
  | duplicate : onFile (db (.signalEvents record.sessionId)) record.eventId = true →
      RecordRun record db .duplicate db
  | stored (event : Event) (out : ConversationOutput C) (tier : RiskTier) :
      toConversationEvent record = .ok event →
      onFile (db (.signalEvents record.sessionId)) record.eventId = false →
      engine.processConversation record.sessionId (db (.conversationRisk record.sessionId))
        [event] = .ok out →
      senderSignals record out.derivedTags = [] →
      RecordRun record db (.noFold tier) (storedDb db record out)
  | folded (event : Event) (out : ConversationOutput C) (sig : SignalsOutput P) :
      toConversationEvent record = .ok event →
      onFile (db (.signalEvents record.sessionId)) record.eventId = false →
      engine.processConversation record.sessionId (db (.conversationRisk record.sessionId))
        [event] = .ok out →
      senderSignals record out.derivedTags ≠ [] →
      engine.processSignals clock record.srcProfileId
        ((db (.profileRisk record.srcProfileId)).map (·.state))
        (senderSignals record out.derivedTags) [] = .ok sig →
      RecordRun record db (foldedAnswer sig)
        (foldedDb (storedDb db record out) record.srcProfileId (some record.sessionId) none [] sig)

@[simp] theorem storedDb_profileRisk (db : RiskDb C P) (record : SignalRecord)
    (out : ConversationOutput C) (p : String) :
    storedDb db record out (.profileRisk p) = db (.profileRisk p) := by
  simp [storedDb, Store.write]

theorem storedDb_conversationRisk (db : RiskDb C P) (record : SignalRecord)
    (out : ConversationOutput C) (s : String) :
    storedDb db record out (.conversationRisk s) =
      if s = record.sessionId then some out.state else db (.conversationRisk s) := by
  by_cases h : s = record.sessionId
  · subst h; simp [storedDb, Store.write]
  · simp [storedDb, Store.write, h]

theorem storedDb_signalEvents (db : RiskDb C P) (record : SignalRecord)
    (out : ConversationOutput C) (s : String) :
    storedDb db record out (.signalEvents s) =
      if s = record.sessionId then db (.signalEvents s) ++ [signalEventRow record]
      else db (.signalEvents s) := by
  by_cases h : s = record.sessionId
  · subst h; simp [storedDb, Store.write]
  · simp [storedDb, Store.write, h]

@[simp] theorem foldedDb_signalEvents (db : RiskDb C P) (p : String) (session reason : Option String)
    (evidence : JsonObject) (out : SignalsOutput P) (s : String) :
    foldedDb db p session reason evidence out (.signalEvents s) = db (.signalEvents s) := by
  unfold foldedDb
  split <;> simp [Store.write]

@[simp] theorem foldedDb_conversationRisk (db : RiskDb C P) (p : String)
    (session reason : Option String) (evidence : JsonObject) (out : SignalsOutput P) (s : String) :
    foldedDb db p session reason evidence out (.conversationRisk s) = db (.conversationRisk s) := by
  unfold foldedDb
  split <;> simp [Store.write]

@[simp] theorem foldedDb_outcomeEvents (db : RiskDb C P) (p : String)
    (session reason : Option String) (evidence : JsonObject) (out : SignalsOutput P) (q : String) :
    foldedDb db p session reason evidence out (.outcomeEvents q) = db (.outcomeEvents q) := by
  unfold foldedDb
  split <;> simp [Store.write]

theorem foldedDb_profileRisk (db : RiskDb C P) (p : String) (session reason : Option String)
    (evidence : JsonObject) (out : SignalsOutput P) (q : String) :
    foldedDb db p session reason evidence out (.profileRisk q) =
      if q = p then some (upsertProfile (profileRow (db (.profileRisk p)) out) (db (.profileRisk p)))
      else db (.profileRisk q) := by
  unfold foldedDb
  by_cases h : q = p
  · subst h
    split <;> simp [Store.write]
  · split <;> simp [Store.write, h]

theorem ingestRecord_duplicate {record : SignalRecord} {event : Event} {db : RiskDb C P}
    (mapped : toConversationEvent record = .ok event)
    (seen : onFile (db (.signalEvents record.sessionId)) record.eventId = true) :
    (ingestRecord engine hashtext clock record).run db = .ok (.duplicate, db) := by
  simp [ingestRecord, mapped, transaction, insertSignalEvent, Prog.run, seen, Store.write]

/-- A record that is not on file, once the conversation engine has answered: what is left
is the fold of the sender's derived tags, or the answer of the current tier. -/
theorem ingestRecord_stored {record : SignalRecord} {event : Event} {out : ConversationOutput C}
    {db : RiskDb C P} (mapped : toConversationEvent record = .ok event)
    (unseen : onFile (db (.signalEvents record.sessionId)) record.eventId = false)
    (conv : engine.processConversation record.sessionId (db (.conversationRisk record.sessionId))
      [event] = .ok out) :
    (ingestRecord engine hashtext clock record).run db =
      if senderSignals record out.derivedTags = [] then
        .ok (.noFold (((db (.profileRisk record.srcProfileId)).map (·.riskTier)).getD .none),
          storedDb db record out)
      else
        (fold engine hashtext clock record.srcProfileId (senderSignals record out.derivedTags) []
          (some record.sessionId) none []).run (storedDb db record out) := by
  have untouched : Store.write db (.signalEvents record.sessionId)
      (some (db (.signalEvents record.sessionId) ++ [signalEventRow record]))
      (.conversationRisk record.sessionId) = db (.conversationRisk record.sessionId) := by
    simp [Store.write]
  simp only [ingestRecord, mapped, transaction, insertSignalEvent, Prog.run, unseen, Bool.not_false,
    Bool.not_true, Bool.false_eq_true, if_false, getConversationState, untouched, conv,
    putConversationState]
  -- the two statements so far have made `storedDb`
  change Prog.run (ite _ _ _) (storedDb db record out) = _
  by_cases none : senderSignals record out.derivedTags = []
  · rw [if_pos none, if_pos none, ite_self]
    simp [answerTier, getProfile, Prog.run, Store.write]
  · have some : out.derivedTags ≠ [] := fun e => none (by rw [e]; rfl)
    rw [if_neg some, if_neg none, if_neg none]

theorem ingestRecord_run {record : SignalRecord} {db db' : RiskDb C P} {a : IngestResponse}
    (ran : (ingestRecord engine hashtext clock record).run db = .ok (a, db')) :
    RecordRun engine clock record db a db' := by
  -- a record that the mapper or the engine refuses ends in an error
  cases mapped : toConversationEvent record with
  | error e => simp [ingestRecord, mapped, Prog.run] at ran
  | ok event =>
    cases seen : onFile (db (.signalEvents record.sessionId)) record.eventId with
    | true =>
      rw [ingestRecord_duplicate engine hashtext clock mapped seen] at ran
      cases ran
      exact .duplicate seen
    | false =>
      cases conv : engine.processConversation record.sessionId
          (db (.conversationRisk record.sessionId)) [event] with
      | error e =>
        simp [ingestRecord, mapped, transaction, insertSignalEvent, getConversationState, Prog.run,
          Store.write, seen, conv] at ran
      | ok out =>
        rw [ingestRecord_stored engine hashtext clock mapped seen conv] at ran
        by_cases none : senderSignals record out.derivedTags = []
        · rw [if_pos none] at ran
          cases ran
          exact .stored event out _ mapped seen conv none
        · rw [if_neg none, fold_run, storedDb_profileRisk] at ran
          cases sig : engine.processSignals clock record.srcProfileId
              ((db (.profileRisk record.srcProfileId)).map (·.state))
              (senderSignals record out.derivedTags) [] with
          | error e => simp [sig] at ran
          | ok sigOut =>
            simp only [sig, Except.ok.injEq, Prod.mk.injEq] at ran
            obtain ⟨rfl, rfl⟩ := ran
            exact .folded event out sigOut mapped seen conv none sig

/-- How an outcome's call ends when it succeeds. -/
theorem ingestOutcome_run (o : Outcome) (db : RiskDb C P) :
    (ingestOutcome engine hashtext clock o).run db =
      match engine.processSignals clock o.profileId
          ((db (.profileRisk o.profileId)).map (·.state)) [] [outcomeItem o] with
      | .error e => .error (ofEngine e)
      | .ok out => .ok (foldedAnswer out, foldedDb (reportedDb db o) o.profileId o.sessionId
          (some ("outcome:" ++ o.tag)) o.evidence out) := by
  have untouched : reportedDb db o (.profileRisk o.profileId) = db (.profileRisk o.profileId) := by
    simp [reportedDb, Store.write]
  simp only [ingestOutcome, transaction, insertOutcome, Prog.run]
  change Prog.run (fold _ _ _ _ _ _ _ _ _) (reportedDb db o) = _
  rw [fold_run, untouched]

end DostReview.Risk
