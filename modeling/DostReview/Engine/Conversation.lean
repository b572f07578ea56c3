import DostReview.Risk.Interface

/-!
# `process_conversation`

The stage machine of one conversation (`vendor/engine.py`, fraud family). The stored
state is what the previous call returned: the shape checks the engine makes against
corrupt state have nothing to reject there, and the state is typed accordingly.
-/
namespace DostReview.Engine

open Risk

/-- First occurrence of a stage. -/
structure Stage where
  ts : String
  turn : ℤ
  sender : String

/-- `state` of `process_conversation`; the two sets are stored sorted. -/
structure ConversationState where
  stages : Dict String Stage
  fired : List String
  identityClaimants : List String
  moneyAskers : Dict String String
  turns : ℕ
  lastUpdated : Option String

/-- `state` absent: the empty containers the engine starts from. -/
def ConversationState.empty : ConversationState := ⟨[], [], [], [], 0, none⟩

/-- The local variables of the event loop. -/
structure Loop where
  state : ConversationState
  derived : List DerivedTag

def convSignalStages : List String :=
  ["channel_shift_request", "identity_claim", "money_ask", "payee_asked_to_act",
    "payment_claim", "contact_share", "refusal_to_meet"]

def convMilestones : List String :=
  ["price_agreed", "meet_scheduled", "ledger_credit", "ledger_credit_small", "handover_confirmed"]

/-- `_JUMPED_DEPOSIT_WINDOW_S`, in microseconds. -/
def jumpedDepositWindow : ℤ := 15 * 60 * 1000000

def firedKey (tag profileId : String) : String := tag ++ "|" ++ profileId

def stageTs (iso : IsoFormat) (stages : Dict String Stage) (name : String) : Option DateTime :=
  (Dict.get? stages name).bind fun st => parseIso iso st.ts

/-- `fire`, called only when its condition holds. -/
def fireIf (condition : Bool) (tag profileId ts : String) (loop : Loop) : Loop :=
  if condition = false ∨ firedKey tag profileId ∈ loop.state.fired then loop
  else
    { state := { loop.state with fired := firedKey tag profileId :: loop.state.fired }
      derived := loop.derived ++ [⟨tag, profileId, ts⟩] }

/-- `stages.setdefault(name, …)` for every name in order. -/
def recordStages (stages : Dict String Stage) (names : List String) (stage : Stage) :
    Dict String Stage :=
  names.foldl (fun st name => Dict.setDefault st name stage) stages

def addMember (xs : List String) (x : String) : List String := if x ∈ xs then xs else x :: xs

/-- The conditions under which one event fires its tags, read off the state once the
event's own stages, claim and ask are in it. -/
structure Conditions where
  moneyAskNoMilestone : Bool
  identityThenMoney : Bool
  feeEscalation : Bool
  jumpedDeposit : Bool
  channelShiftEarly : Bool
  contactSharePreMilestone : Bool
  categoricalBlock : Bool

/-- `first_ask < credit <= when`, with every instant present. -/
def escalates (firstAsk credit : Option DateTime) (now : DateTime) : Bool :=
  match firstAsk, credit with
  | some f, some c => decide (f.instant < c.instant ∧ c.instant ≤ now.instant)
  | _, _ => false

/-- `0 <= when - small <= window` -/
def jumps (small : Option DateTime) (now : DateTime) : Bool :=
  match small with
  | some s => decide (0 ≤ now.instant - s.instant ∧ now.instant - s.instant ≤ jumpedDepositWindow)
  | none => false

/-- `meet_scheduled`, `ledger_credit` or `handover_confirmed` has been recorded. -/
def met (iso : IsoFormat) (stages : Dict String Stage) : Bool :=
  (stageTs iso stages "meet_scheduled").isSome || (stageTs iso stages "ledger_credit").isSome ||
    (stageTs iso stages "handover_confirmed").isSome

def conditions (iso : IsoFormat) (st : ConversationState) (names : List String) (sender : String)
    (turn : ℤ) (now : DateTime) : Conditions :=
  let asks : Bool := "money_ask" ∈ names
  { moneyAskNoMilestone := asks && !met iso st.stages
    identityThenMoney := asks && !met iso st.stages && decide (sender ∈ st.identityClaimants)
    feeEscalation := asks && escalates ((Dict.get? st.moneyAskers sender).bind (parseIso iso))
      (stageTs iso st.stages "ledger_credit") now
    jumpedDeposit := (decide ("payee_asked_to_act" ∈ names) || asks) &&
      jumps (stageTs iso st.stages "ledger_credit_small") now
    channelShiftEarly := decide ("channel_shift_request" ∈ names) && decide (turn ≤ 2)
    contactSharePreMilestone := decide ("contact_share" ∈ names) &&
      (stageTs iso st.stages "price_agreed").isNone
    categoricalBlock := "categorical_block" ∈ names }

/-- The turn an event counts as: its own index, or its place in the conversation. -/
def turnOf (ev : Event) (turns : ℕ) : ℤ := ev.turnIndex.getD turns

/-- The state with an event's turn, claim, milestones, signal stages and first ask. -/
def absorb (st : ConversationState) (ev : Event) : ConversationState :=
  let names := ev.signals.map Prod.fst
  let stage : Stage := ⟨ev.ts, turnOf ev (st.turns + 1), ev.senderId⟩
  { stages := recordStages (recordStages st.stages (ev.milestones.filter (· ∈ convMilestones)) stage)
      (names.filter (· ∈ convSignalStages)) stage
    fired := st.fired
    identityClaimants := if "identity_claim" ∈ names then addMember st.identityClaimants ev.senderId
      else st.identityClaimants
    moneyAskers := if "money_ask" ∈ names then Dict.setDefault st.moneyAskers ev.senderId ev.ts
      else st.moneyAskers
    turns := st.turns + 1
    lastUpdated := some ev.ts }

/-- The tags an event fires, in the order of the source. -/
def fireAll (c : Conditions) (sender ts : String) (loop : Loop) : Loop :=
  loop
    |> fireIf c.moneyAskNoMilestone "money_ask_no_milestone" sender ts
    |> fireIf c.identityThenMoney "identity_then_money" sender ts
    |> fireIf c.feeEscalation "fee_escalation" sender ts
    |> fireIf c.jumpedDeposit "jumped_deposit" sender ts
    |> fireIf c.channelShiftEarly "channel_shift_early" sender ts
    |> fireIf c.contactSharePreMilestone "contact_share_pre_milestone" sender ts
    |> fireIf c.categoricalBlock "categorical_block" sender ts

/-- One round of the event loop; an event whose timestamp cannot be read is skipped. -/
def processEvent (iso : IsoFormat) (loop : Loop) (ev : Event) : Loop :=
  match parseIso iso ev.ts with
  | none => loop
  | some now =>
    -- the conditions see the event's own stages
    let st := absorb loop.state ev
    let names := ev.signals.map Prod.fst
    fireAll (conditions iso st names ev.senderId (turnOf ev st.turns) now) ev.senderId ev.ts
      { loop with state := st }

def sortedSet (xs : List String) : List String := xs.insertionSort (· ≤ ·)

/-- `process_conversation`; its metrics are always empty and it has no error to return on
a list of events and a state of its own making. -/
def processConversation (iso : IsoFormat) (prev : Option ConversationState)
    (events : List Event) : ConversationOutput ConversationState :=
  let final := events.foldl (processEvent iso) ⟨prev.getD .empty, []⟩
  { derivedTags := final.derived
    state := { final.state with
      fired := sortedSet final.state.fired
      identityClaimants := sortedSet final.state.identityClaimants } }

end DostReview.Engine
