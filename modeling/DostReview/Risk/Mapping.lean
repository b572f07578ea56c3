import Mathlib.Data.List.Sort
import DostReview.Risk.Values

/-!
# The gate record and the engine's inputs

`app/routes/signals.py` (the record as the route accepts it) and `app/risk/mapping.py`.
-/
namespace DostReview.Risk

structure Signal where
  name : String
  confidence : PyFloat
  tier : Option String := none
  detail : String := ""
  entities : List JsonObject := []
  extra : JsonObject := []

structure SignalRecord where
  modelVersion : String
  ts : String
  eventId : String
  sessionId : String
  srcProfileId : String
  dstProfileId : Option String := none
  verdict : String
  category : String
  tier : Option String := none
  context : JsonObject := []
  textHash : Option String := none
  textLength : ℤ := 0
  signals : List Signal := []
  extra : JsonObject := []

/-- `routes/outcomes.py`: the request body of an outcome report. -/
structure Outcome where
  profileId : String
  tag : String
  reporterId : Option String := none
  sessionId : Option String := none
  evidence : JsonObject := []

/-- `OUTCOME_TAGS`, the tags the route lets through. -/
def outcomeTags : List String :=
  ["counterparty_reported", "paid_not_delivered", "not_received", "dispute_lost",
    "counterparty_silent_after_money_ask", "confirmed_fraud", "shared_instrument_with_confirmed"]

/-- One event of `process_conversation`'s input. -/
structure Event where
  ts : String
  senderId : String
  signals : List (String × PyFloat)
  milestones : List String
  textHash : Option String := none
  turnIndex : Option ℤ := none

/-- One entry of `process_conversation`'s `derivedTags`. -/
structure DerivedTag where
  tag : String
  profileId : String
  ts : String
  deriving DecidableEq

/-- One entry of `process_signals`' `signals` or `outcomes`. -/
structure SignalItem where
  tag : String
  conversationId : Option String
  counterpartyId : Option String
  createdAt : Option String := none
  ts : Option String := none
  deriving DecidableEq

def categorical : List String := ["payment_manipulation", "otp_request", "phishing"]

def minConfidence : ℚ := 1 / 2

/-- `_NOISE_FLOOR`: the double nearest to 0.2. -/
def noiseFloor : ℚ := 3602879701896397 / 18014398509481984

def stateSeeding : List String :=
  ["channel_shift_request", "identity_claim", "money_ask", "payee_asked_to_act",
    "payment_claim", "contact_share", "refusal_to_meet"]

def milestoneStages : List String :=
  ["price_agreed", "meet_scheduled", "ledger_credit", "ledger_credit_small", "handover_confirmed"]

def milestoneLadder : List String :=
  ["price_agreed", "meet_scheduled", "ledger_credit", "handover_confirmed"]

def keeps (name : String) (confidence : PyFloat) : Bool :=
  confidence.atLeast (if name ∈ stateSeeding then noiseFloor else minConfidence)

/-- `stage in _MILESTONE_STAGES`: a list or an object is unhashable, any other value that is
not one of the strings is not a member. -/
def milestoneOf : Option Json → Except PyError (Option String)
  | some (.arr _) => .error .typeError
  | some (.obj _) => .error .typeError
  | some (.str s) => .ok (if s ∈ milestoneStages then some s else none)
  | _ => .ok none

/-- The milestones of a stage: a rung of the ladder past the first implies the first. -/
def impliedMilestones : Option String → List String
  | none => []
  | some stage =>
    -- `ledger_credit_small` is off the ladder and implies nothing
    (if stage ∈ milestoneLadder ∧ stage ≠ "price_agreed" then ["price_agreed"] else []) ++ [stage]

/-- The signals that clear the confidence floor, and the blocked message's own. -/
def keptSignals (record : SignalRecord) : List (String × PyFloat) :=
  (record.signals.filter fun s => keeps s.name s.confidence).map (fun s => (s.name, s.confidence)) ++
    (if record.verdict = "reject" ∧ record.category ∈ categorical
      then [("categorical_block", .fin 1)] else [])

/-- The event of a record whose stage is this milestone. -/
def eventOf (record : SignalRecord) (stage : Option String) : Event :=
  { ts := record.ts
    senderId := record.srcProfileId
    signals := keptSignals record
    milestones := impliedMilestones stage
    -- an empty hash is left out like none
    textHash := record.textHash.filter (· ≠ "")
    turnIndex := (Dict.get? record.context "turnIndex").bind Json.asInt }

def toConversationEvent (record : SignalRecord) : Except PyError Event :=
  (milestoneOf (Dict.get? record.context "dealStage")).map (eventOf record)

theorem toConversationEvent_ok {record : SignalRecord} {event : Event}
    (mapped : toConversationEvent record = .ok event) :
    ∃ stage, milestoneOf (Dict.get? record.context "dealStage") = .ok stage ∧
      event = eventOf record stage := by
  unfold toConversationEvent at mapped
  cases stage : milestoneOf (Dict.get? record.context "dealStage") with
  | error e => simp [stage, Except.map] at mapped
  | ok o =>
    simp only [stage, Except.map, Except.ok.injEq] at mapped
    exact ⟨o, rfl, mapped.symm⟩

/-- `sorted(p for p in participants if p != sender)`, its first element if there is one. -/
def counterparty (participants : List String) (sender : String) : Option String :=
  ((participants.filter (· ≠ sender)).insertionSort (· ≤ ·)).head?

/-- `derived_to_signals`, with the set of participants as a list. -/
def derivedToSignals (derived : List DerivedTag) (sessionId : String)
    (participants : List String) (profileId : Option String := none) : List SignalItem :=
  (derived.filter fun d => profileId = none ∨ profileId = some d.profileId).map fun d =>
    { tag := d.tag
      conversationId := some sessionId
      counterpartyId := counterparty participants d.profileId
      createdAt := some d.ts }

end DostReview.Risk
