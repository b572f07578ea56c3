import DostReview.Risk.Store

/-!
# `app/risk/service.py` and its two routes

`ingest_record`, `ingest_outcome` and `_fold` as programs over the store, and the HTTP
answers that `routes/signals.py` and `routes/outcomes.py` make of them.
-/
namespace DostReview.Risk

open Locking

def queueAt : ℚ := 60

section

variable {C P : Type} (engine : FraudEngine C P) (hashtext : String → ℤ) (clock : DateTime)

/-- An engine failure as the exception it becomes: `_EngineRejected` for an error result. -/
def ofEngine : EngineFailure → IngestError
  | .error message => .engineRejected message
  | .raised e => .raised e

/-- `{"riskTags": …, "repeatedAcross": …, **(evidence or {})}` -/
def queueEvidence (out : SignalsOutput P) (evidence : JsonObject) : JsonObject :=
  evidence.foldl (fun d e => Dict.set d e.1 e.2)
    [("riskTags", .obj (out.riskTags.map fun t => (t.1, .float (.fin t.2)))),
      ("repeatedAcross", .arr (out.repeatedAcross.map .str))]

def profileRow (prev : Option (ProfileRow P)) (out : SignalsOutput P) : ProfileRow P :=
  { accountId := prev.bind (·.accountId)
    state := out.state
    -- its column is `NUMERIC(5,1)`: a score in tenths is kept, a longer one rounded
    riskScore := out.riskScore
    riskTier := out.riskTier
    repeatedAcross := out.repeatedAcross }

def queueRow (profileId : String) (sessionId reason : Option String) (evidence : JsonObject)
    (out : SignalsOutput P) : QueueRow :=
  { profileId := profileId
    sessionId := sessionId
    reason := reason.getD "score"
    -- `NUMERIC(5,1)` as well
    riskScore := out.riskScore
    evidence := queueEvidence out evidence
    status := .opened }

def foldedAnswer (out : SignalsOutput P) : IngestResponse :=
  .folded out.riskTier out.riskScore out.repeatedAcross

def fold (profileId : String) (signals outcomes : List SignalItem)
    (sessionId reason : Option String) (evidence : JsonObject) : Ingest C P :=
  transaction hashtext ("profile:" ++ profileId) <|
    getProfile profileId fun prev =>
      -- a failure of the engine leaves the transaction, which is rolled back whole
      match engine.processSignals clock profileId (prev.map (·.state)) signals outcomes with
      | .error e => .throw (ofEngine e)
      | .ok out =>
        putProfile profileId (profileRow prev out) <|
          -- at the bound itself the profile is queued
          if queueAt ≤ out.riskScore then
            enqueueReview (queueRow profileId sessionId reason evidence out)
              (.ret (foldedAnswer out))
          else .ret (foldedAnswer out)

/-- `_tier_of`, the answer of a record with nothing to fold: read without the profile's lock. -/
def answerTier (profileId : String) : Ingest C P :=
  getProfile profileId fun row => .ret (.noFold ((row.map (·.riskTier)).getD .none))

/-- `{p for p in (sender, receiver) if p}`, which `participants_of` returns. -/
def participants (record : SignalRecord) : List String :=
  (record.srcProfileId :: record.dstProfileId.toList).filter (· ≠ "")

/-- The signals of the derived tags, the sender's only. -/
def senderSignals (record : SignalRecord) (derived : List DerivedTag) : List SignalItem :=
  derivedToSignals derived record.sessionId (participants record) (some record.srcProfileId)

def ingestRecord (record : SignalRecord) : Ingest C P :=
  match toConversationEvent record with
  | .error e => .throw (.raised e)
  | .ok event =>
    transaction hashtext ("session:" ++ record.sessionId) <|
      insertSignalEvent record fun inserted =>
        -- a redelivery is not processed again
        if !inserted then .ret .duplicate
        else
          getConversationState record.sessionId fun convState =>
            match engine.processConversation record.sessionId convState [event] with
            | .error e => .throw (ofEngine e)
            | .ok out =>
              putConversationState record.sessionId out.state <|
                if out.derivedTags = [] then answerTier record.srcProfileId
                -- tags were derived, but none of them about the sender
                else if senderSignals record out.derivedTags = [] then
                  answerTier record.srcProfileId
                else
                  fold engine hashtext clock record.srcProfileId
                    (senderSignals record out.derivedTags) [] (some record.sessionId) none []

def outcomeRow (o : Outcome) : OutcomeRow :=
  { profileId := o.profileId
    reporterId := o.reporterId
    sessionId := o.sessionId
    tag := o.tag
    evidence := o.evidence }

/-- The item handed to `process_signals`: with no session, the tag names the conversation. -/
def outcomeItem (o : Outcome) : SignalItem :=
  { tag := o.tag
    conversationId := some ((o.sessionId.filter (· ≠ "")).getD ("outcome:" ++ o.tag))
    counterpartyId := o.reporterId }

def ingestOutcome (o : Outcome) : Ingest C P :=
  transaction hashtext ("profile:" ++ o.profileId) <|
    insertOutcome (outcomeRow o) <|
      fold engine hashtext clock o.profileId [] [outcomeItem o] o.sessionId
        (some ("outcome:" ++ o.tag)) o.evidence

inductive RiskCall
  | record (r : SignalRecord)
  | outcome (o : Outcome)

def RiskCall.program : RiskCall → Ingest C P
  | .record r => ingestRecord engine hashtext clock r
  | .outcome o => ingestOutcome engine hashtext clock o

/-- The service's result as `except _EngineRejected` leaves it: an answer, an `{"error"}`
dictionary, or an exception for the framework. -/
inductive ServiceResult
  | answer (r : IngestResponse)
  | error (message : String)
  | raised

def serviceResult : Except (Option IngestError) IngestResponse → ServiceResult
  | .ok r => .answer r
  | .error (some (.engineRejected message)) => .error message
  | .error _ => .raised

/-- `post_signal` -/
def signalStatus : ServiceResult → ℕ
  | .error _ => 422
  | .answer .duplicate => 200
  | .answer _ => 202
  | .raised => 500

/-- `post_outcome` past its tag check: whatever dictionary the service returns goes out
under the route's 202. -/
def outcomeStatus : ServiceResult → ℕ
  | .raised => 500
  | _ => 202

/-- A validated request: its HTTP status and the tables it leaves, when the store call
numbered `fault` fails. -/
def RiskCall.handle (call : RiskCall) (fault : Option ℕ) (db : RiskDb C P) : ℕ × RiskDb C P :=
  match call with
  | .record r =>
    let done := (ingestRecord engine hashtext clock r).transact fault db
    (signalStatus (serviceResult done.1), done.2)
  | .outcome o =>
    if o.tag ∈ outcomeTags then
      let done := (ingestOutcome engine hashtext clock o).transact fault db
      (outcomeStatus (serviceResult done.1), done.2)
    else (422, db)

end

end DostReview.Risk
