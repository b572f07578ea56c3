import DostReview.Library.Transactions
import DostReview.Risk.Interface

/-!
# `PostgresRiskStore`

The tables of `004_risk.sql` by the rows one lock key guards, and the store calls of
`app/risk/store.py` as statements on them. Generated ids and row timestamps are left out.
-/
namespace DostReview.Risk

open Locking

/-- `signal_event` and `conversation_risk` by session, the other tables by profile. -/
inductive Loc
  | signalEvents (sessionId : String)
  | conversationRisk (sessionId : String)
  | profileRisk (profileId : String)
  | outcomeEvents (profileId : String)
  | reviewQueue (profileId : String)
  deriving DecidableEq

structure SignalEventRow where
  sessionId : String
  eventId : String
  senderProfileId : String
  receiverProfileId : Option String
  modelVersion : String
  verdict : String
  record : SignalRecord

structure ProfileRow (P : Type) where
  accountId : Option String
  state : P
  riskScore : ℚ
  riskTier : RiskTier
  repeatedAcross : List String

structure OutcomeRow where
  profileId : String
  reporterId : Option String
  sessionId : Option String
  tag : String
  evidence : JsonObject

inductive QueueStatus
  | opened
  | decided
  | expired
  deriving DecidableEq

structure QueueRow where
  profileId : String
  sessionId : Option String
  reason : String
  riskScore : ℚ
  evidence : JsonObject
  status : QueueStatus

/-- What a location holds, for conversation states `C` and account states `P`. -/
abbrev Cell (C P : Type) : Loc → Type
  | .signalEvents _ => List SignalEventRow
  | .conversationRisk _ => Option C
  | .profileRisk _ => Option (ProfileRow P)
  | .outcomeEvents _ => List OutcomeRow
  | .reviewQueue _ => List QueueRow

abbrev RiskDb (C P : Type) := Store (Cell C P)

/-- The tables after the migrations, before any call. -/
def RiskDb.empty {C P : Type} : RiskDb C P
  | .signalEvents _ => []
  | .conversationRisk _ => none
  | .profileRisk _ => none
  | .outcomeEvents _ => []
  | .reviewQueue _ => []

section

variable {C P : Type}

@[simp] theorem RiskDb.empty_signalEvents (s : String) :
    (RiskDb.empty : RiskDb C P) (.signalEvents s) = [] := rfl

@[simp] theorem RiskDb.empty_conversationRisk (s : String) :
    (RiskDb.empty : RiskDb C P) (.conversationRisk s) = none := rfl

@[simp] theorem RiskDb.empty_profileRisk (p : String) :
    (RiskDb.empty : RiskDb C P) (.profileRisk p) = none := rfl

end

/-- The lock key under which the service touches a location. -/
def lockKey : Loc → String
  | .signalEvents s => "session:" ++ s
  | .conversationRisk s => "session:" ++ s
  | .profileRisk p => "profile:" ++ p
  | .outcomeEvents p => "profile:" ++ p
  | .reviewQueue p => "profile:" ++ p

/-- What leaves `ingest_record` or `ingest_outcome` as an exception inside the
transaction: `_EngineRejected`, or anything else. -/
inductive IngestError
  | engineRejected (message : String)
  | raised (e : PyError)
  deriving DecidableEq

/-- The service's answers: `{"duplicate": True}`; a record with nothing to fold, which
answers the sender's current tier; a fold. -/
inductive IngestResponse
  | duplicate
  | noFold (riskTier : RiskTier)
  | folded (riskTier : RiskTier) (riskScore : ℚ) (repeatedAcross : List String)
  deriving DecidableEq

/-- A service call as a program over the store; lock ids are the `hashtext` of the keys. -/
abbrev Ingest (C P : Type) := Prog ℤ Loc (Cell C P) IngestError IngestResponse

abbrev RiskConf (T C P : Type) := Conf ℤ Loc T (Cell C P) IngestError IngestResponse

section

variable {C P : Type}

/-- `store.transaction(lock_key)`, outermost or nested: the advisory lock is all that a
nested one adds. -/
def transaction (hashtext : String → ℤ) (key : String) (body : Ingest C P) : Ingest C P :=
  .lock (hashtext key) body

def signalEventRow (record : SignalRecord) : SignalEventRow :=
  { sessionId := record.sessionId
    eventId := record.eventId
    senderProfileId := record.srcProfileId
    receiverProfileId := record.dstProfileId
    modelVersion := record.modelVersion
    verdict := record.verdict
    record := record }

/-- A row of the session has this event id: `UNIQUE (session_id, event_id)` refuses another. -/
def onFile (rows : List SignalEventRow) (eventId : String) : Bool :=
  rows.any fun row => row.eventId = eventId

/-- `insert_signal_event`: `ON CONFLICT (session_id, event_id) DO NOTHING`. -/
def insertSignalEvent (record : SignalRecord) (next : Bool → Ingest C P) : Ingest C P :=
  .stmt (.signalEvents record.sessionId)
    (fun rows => if onFile rows record.eventId then none else some (rows ++ [signalEventRow record]))
    fun rows => next (!onFile rows record.eventId)

def getConversationState (sessionId : String) (next : Option C → Ingest C P) : Ingest C P :=
  .stmt (.conversationRisk sessionId) (fun _ => none) next

def putConversationState (sessionId : String) (state : C) (next : Ingest C P) : Ingest C P :=
  .stmt (.conversationRisk sessionId) (fun _ => some (some state)) fun _ => next

def getProfile (profileId : String) (next : Option (ProfileRow P) → Ingest C P) : Ingest C P :=
  .stmt (.profileRisk profileId) (fun _ => none) next

/-- The row `put_profile` leaves: an account id once known is kept. -/
def upsertProfile (row : ProfileRow P) (old : Option (ProfileRow P)) : ProfileRow P :=
  { row with accountId := row.accountId.or (old.bind (·.accountId)) }

def putProfile (profileId : String) (row : ProfileRow P) (next : Ingest C P) : Ingest C P :=
  .stmt (.profileRisk profileId) (fun old => some (some (upsertProfile row old))) fun _ => next

def insertOutcome (row : OutcomeRow) (next : Ingest C P) : Ingest C P :=
  .stmt (.outcomeEvents row.profileId) (fun rows => some (rows ++ [row])) fun _ => next

/-- `uq_review_queue_open` has an entry for the profile of these rows. -/
def hasOpen (rows : List QueueRow) : Bool := rows.any fun row => row.status = .opened

/-- `enqueue_review`: `ON CONFLICT DO NOTHING` against the one OPEN row per profile. -/
def enqueueReview (row : QueueRow) (next : Ingest C P) : Ingest C P :=
  .stmt (.reviewQueue row.profileId)
    (fun rows => if hasOpen rows then none else some (rows ++ [row])) fun _ => next

end

end DostReview.Risk
