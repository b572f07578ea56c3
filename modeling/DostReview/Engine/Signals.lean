import Mathlib.Data.Rat.Floor
import Mathlib.Tactic.Linarith
import Mathlib.Tactic.NormNum
import DostReview.Library.Rounding
import DostReview.Risk.Interface

/-!
# `process_signals`

The account state of the fraud family (`vendor/engine.py`). Float arithmetic is a
parameter; of it the proofs below use only that decayed weights stay finite and that a
clamped score is below the last tier's bound. Instants are compared exactly.
-/
namespace DostReview.Engine

open Risk

/-- The float operations `process_signals` uses, with what IEEE doubles promise of them.
`round n x` is the decimal that Python's `round(x, n)` prints. -/
structure FloatOps where
  Float : Type
  lit : ℚ → Float
  add : Float → Float → Float
  sub : Float → Float → Float
  mul : Float → Float → Float
  div : Float → Float → Float
  halfPow : Float → Float
  exp : Float → Float
  lt : Float → Float → Bool
  isfinite : Float → Bool
  round : ℕ → Float → ℚ
  /-- a factor between 0 and 1 -/
  fraction : Float → Prop
  fraction_one : fraction (lit 1)
  fraction_halfPow : ∀ age half, lt (lit 0) age = true → 0 < half →
    fraction (halfPow (div age (lit half)))
  finite_zero : isfinite (lit 0) = true
  finite_mul : ∀ w f, isfinite w = true → fraction f → isfinite (mul w f) = true
  finite_add : ∀ w f, isfinite w = true → fraction f → isfinite (add w f) = true
  round_clamped : ∀ x,
    let low := if lt x (lit 100) then x else lit 100
    round 1 (if lt (lit 0) low then low else lit 0) < 101

/-- `exp(x)` of a number that is not positive: one over the first terms of the series of `exp(-x)`. -/
def expSeries (x : ℚ) : ℚ := 1 / (List.range 40).foldr (fun k rest => 1 - x / (k + 1) * rest) 1

/-- Exact arithmetic in place of doubles, with both exponentials to many digits: the engine can be
run with it. -/
def rationalOps : FloatOps where
  Float := ℚ
  lit := id
  add := (· + ·)
  sub := (· - ·)
  mul := (· * ·)
  div := (· / ·)
  -- `0.5 ** x == exp(-ln(2) * x)`
  halfPow x := expSeries (-(69314718055994530941723212 / 10 ^ 26) * x)
  exp := expSeries
  lt x y := decide (x < y)
  isfinite _ := true
  round := Rounding.roundTo
  fraction _ := True
  fraction_one := trivial
  fraction_halfPow _ _ _ _ := trivial
  finite_zero := rfl
  finite_mul _ _ _ _ := rfl
  finite_add _ _ _ _ := rfl
  round_clamped x := by
    intro low
    have bound : (if decide (0 < low) = true then low else 0) ≤ ((100 : ℕ) : ℚ) := by
      simp only [decide_eq_true_eq, low, id]
      push_cast
      split_ifs <;> linarith
    have rounded := Rounding.roundTo_mono 1 bound
    rw [Rounding.roundTo_natCast] at rounded
    exact rounded.trans_lt (by norm_num)

inductive FraudTag
  | channelShiftEarly
  | contactSharePreMilestone
  | moneyAskNoMilestone
  | feeEscalation
  | jumpedDeposit
  | templateReuse
  | unsolicitedFirstContact
  | identityThenMoney
  | categoricalBlock
  | counterpartyReported
  | paidNotDelivered
  | notReceived
  | disputeLost
  | counterpartySilentAfterMoneyAsk
  | confirmedFraud
  | sharedInstrumentWithConfirmed
  | clearedByReview
  deriving DecidableEq

namespace FraudTag

def name : FraudTag → String
  | channelShiftEarly => "channel_shift_early"
  | contactSharePreMilestone => "contact_share_pre_milestone"
  | moneyAskNoMilestone => "money_ask_no_milestone"
  | feeEscalation => "fee_escalation"
  | jumpedDeposit => "jumped_deposit"
  | templateReuse => "template_reuse"
  | unsolicitedFirstContact => "unsolicited_first_contact"
  | identityThenMoney => "identity_then_money"
  | categoricalBlock => "categorical_block"
  | counterpartyReported => "counterparty_reported"
  | paidNotDelivered => "paid_not_delivered"
  | notReceived => "not_received"
  | disputeLost => "dispute_lost"
  | counterpartySilentAfterMoneyAsk => "counterparty_silent_after_money_ask"
  | confirmedFraud => "confirmed_fraud"
  | sharedInstrumentWithConfirmed => "shared_instrument_with_confirmed"
  | clearedByReview => "cleared_by_review"

/-- `FRAUD_VELOCITY_TAGS` -/
def velocity : List FraudTag :=
  [channelShiftEarly, contactSharePreMilestone, moneyAskNoMilestone, feeEscalation,
    jumpedDeposit, templateReuse, unsolicitedFirstContact, identityThenMoney, categoricalBlock]

/-- `FRAUD_OUTCOME_TAGS` -/
def outcome : List FraudTag :=
  [counterpartyReported, paidNotDelivered, notReceived, disputeLost,
    counterpartySilentAfterMoneyAsk, confirmedFraud, sharedInstrumentWithConfirmed,
    clearedByReview]

/-- The member of `FRAUD_TAGS` with this name. -/
def ofName (s : String) : Option FraudTag := (velocity ++ outcome).find? fun t => t.name = s

def weight : FraudTag → ℚ
  | channelShiftEarly => 1
  | contactSharePreMilestone => 1
  | moneyAskNoMilestone => 2
  | feeEscalation => 6
  | jumpedDeposit => 6
  | templateReuse => 2
  | unsolicitedFirstContact => 1 / 2
  | identityThenMoney => 3
  | categoricalBlock => 4
  | counterpartyReported => 5
  | paidNotDelivered => 8
  | notReceived => 8
  | disputeLost => 8
  | counterpartySilentAfterMoneyAsk => 3
  | confirmedFraud => 14
  | sharedInstrumentWithConfirmed => 8
  | clearedByReview => -6

/-- Half-life in days: outcome tags fade like the reviews' negative tags. -/
def halfLife (t : FraudTag) : ℚ := if t ∈ outcome then 540 else 7

theorem ofName_name (t : FraudTag) : ofName t.name = some t := by
  cases t <;> decide

end FraudTag

/-- `next(name for name, upper in RISK_TIERS if score < upper)` -/
def tierOf (score : ℚ) : Except PyError RiskTier :=
  if score < 30 then .ok .none
  else if score < 60 then .ok .elevated
  else if score < 80 then .ok .high
  else if score < 101 then .ok .critical
  else .error .stopIteration

structure TagState (F : FloatOps) where
  count : ℕ
  w : F.Float

structure RecentEntry where
  cp : String
  ts : String

structure SeenEntry where
  tags : List FraudTag
  ts : Option String

structure Denoms where
  conversations : ℕ
  moneyAskConversations : ℕ

/-- `state` of `process_signals`. -/
structure AccountState (F : FloatOps) where
  fraudTagStates : Dict FraudTag (TagState F)
  recent : Dict FraudTag (List RecentEntry)
  denoms : Denoms
  convSeen : Dict String SeenEntry
  lastUpdated : Option String

def AccountState.empty (F : FloatOps) : AccountState F := ⟨[], [], ⟨0, 0⟩, [], none⟩

section

variable (F : FloatOps) (iso : IsoFormat)

/-- `max(0.0, x)` -/
def floor0 (x : F.Float) : F.Float := if F.lt (F.lit 0) x then x else F.lit 0

/-- `min(bound, x)` -/
def cap (bound x : F.Float) : F.Float := if F.lt x bound then x else bound

/-- `max(0.0, (now - then).total_seconds() / 86400.0)` -/
def ageDays (now earlier : DateTime) : F.Float :=
  floor0 F (F.div (F.lit ((now.instant - earlier.instant : ℤ) / 1000000)) (F.lit 86400))

/-- `_fraud_recency_weight` -/
def recencyWeight (age : F.Float) (tag : FraudTag) : F.Float :=
  if F.lt (F.lit 0) age then F.halfPow (F.div age (F.lit tag.halfLife)) else F.lit 1

/-- The tag states echoed back, without those whose weight is not finite. -/
def loadTagStates (st : AccountState F) : Dict FraudTag (TagState F) :=
  st.fraudTagStates.filter fun e => F.isfinite e.2.w

/-- Step 1: the stored mass decayed forward to now. -/
def decayTags (now : DateTime) (last : Option DateTime) (tags : Dict FraudTag (TagState F)) :
    Dict FraudTag (TagState F) :=
  match last with
  | none => tags
  | some last =>
    Dict.mapValues (fun tag s => { s with w := F.mul s.w (recencyWeight F (ageDays F now last) tag) })
      tags

/-- `conv_seen.setdefault(conv, {"tags": [], "ts": None})` -/
def seenEntry (st : AccountState F) (conv : String) : SeenEntry :=
  (Dict.get? st.convSeen conv).getD ⟨[], none⟩

/-- The timestamp of an item: `createdAt`, else `ts`, else now. -/
def createdOf (now : DateTime) (item : SignalItem) : DateTime :=
  ((item.createdAt.bind (parseIso iso)).orElse fun _ => item.ts.bind (parseIso iso)).getD now

/-- `recent` with the item's counterparty, if it names one. -/
def noteCounterparty (created : DateTime) (tag : FraudTag) (item : SignalItem)
    (recent : Dict FraudTag (List RecentEntry)) : Dict FraudTag (List RecentEntry) :=
  match item.counterpartyId with
  | none => recent
  | some cp =>
    if cp = "" then recent
    else Dict.set recent tag ((Dict.get? recent tag).getD [] ++ [⟨cp, iso.isoformat created⟩])

/-- What counting a tag adds: one conversation if it is the first tag seen in it. -/
def Denoms.count (d : Denoms) (tag : FraudTag) (seen : List FraudTag) : Denoms :=
  ⟨if seen = [] then d.conversations + 1 else d.conversations,
    if tag = .moneyAskNoMilestone then d.moneyAskConversations + 1 else d.moneyAskConversations⟩

/-- The state of a tag after one more occurrence of the given age. -/
def bumpTag (age : F.Float) (tag : FraudTag) (tags : Dict FraudTag (TagState F)) :
    Dict FraudTag (TagState F) :=
  let s := (Dict.get? tags tag).getD ⟨0, F.lit 0⟩
  Dict.set tags tag ⟨s.count + 1, F.add s.w (recencyWeight F age tag)⟩

/-- Step 2, one item: counted once per conversation and tag. -/
def foldItem (now : DateTime) (st : AccountState F) (item : SignalItem) : AccountState F :=
  match FraudTag.ofName item.tag with
  -- a tag outside `FRAUD_TAGS` is skipped
  | none => st
  | some tag =>
    -- items without a conversation share one
    let conv := item.conversationId.getD ""
    let entry := seenEntry F st conv
    let stamp := some (iso.isoformat now)
    if tag ∈ entry.tags then
      -- counted before: only the conversation's timestamp moves
      { st with convSeen := Dict.set st.convSeen conv { entry with ts := stamp } }
    else
      let created := createdOf iso now item
      { fraudTagStates := bumpTag F (ageDays F now created) tag st.fraudTagStates
        recent := noteCounterparty iso created tag item st.recent
        denoms := st.denoms.count tag entry.tags
        convSeen := Dict.set st.convSeen conv ⟨entry.tags ++ [tag], stamp⟩
        lastUpdated := st.lastUpdated }

/-- `_RECENT_KEEP_DAYS`, `_CONV_SEEN_KEEP_DAYS`, `_REPEAT_WINDOW_DAYS`: a stamp is inside
the window that reaches this many days back from now. -/
def within (window : ℤ) (now : DateTime) (ts : Option String) : Bool :=
  match ts.bind (parseIso iso) with
  -- no stamp that can be read is outside every window
  | none => false
  | some t => decide (now.instant - days window ≤ t.instant)

def dated (entries : List RecentEntry) : List RecentEntry := entries.filter (·.cp ≠ "")

/-- Step 3: `recent` pruned to its window; a tag with nothing left is dropped. -/
def pruneRecent (now : DateTime) (recent : Dict FraudTag (List RecentEntry)) :
    Dict FraudTag (List RecentEntry) :=
  (Dict.mapValues (fun _ entries => (dated entries).filter fun x => within iso 30 now (some x.ts))
    recent).filter fun e => e.2 ≠ []

/-- The tags reported by at least three counterparties within the repeat window. -/
def repeatedTags (now : DateTime) (recent : Dict FraudTag (List RecentEntry)) : List String :=
  ((recent.filter fun e =>
    3 ≤ (((dated e.2).filter fun x => within iso 7 now (some x.ts)).map (·.cp)).dedup.length).map
      fun e => e.1.name).insertionSort (· ≤ ·)

def pruneSeen (now : DateTime) (seen : Dict String SeenEntry) : Dict String SeenEntry :=
  seen.filter fun e => within iso 180 now e.2.ts

/-- The weighted mass of the tags in a list of entries, summed in dictionary order. -/
def massOf (tags : Dict FraudTag (TagState F)) : F.Float :=
  tags.foldl (fun acc e => F.add acc (F.mul (F.lit e.1.weight) e.2.w)) (F.lit 0)

def riskScore (tags : Dict FraudTag (TagState F)) (tenureDays : F.Float) : ℚ :=
  let mass := massOf F tags
  -- a mass that is not finite, or not positive, scores nothing
  if F.isfinite mass = false ∨ F.lt (F.lit 0) mass = false then 0
  else
    -- only the mass of the velocity tags is damped for a young account
    let tenureFactor := cap F (F.lit 1) (F.div (floor0 F tenureDays) (F.lit 14))
    let outcomeMass := massOf F (tags.filter fun e => e.1 ∈ FraudTag.outcome)
    let effective := F.add outcomeMass (F.mul (F.sub mass outcomeMass)
      (F.add (F.lit (1 / 2)) (F.mul (F.lit (1 / 2)) tenureFactor)))
    let score := F.mul (F.lit 100)
      (F.sub (F.lit 1) (F.exp (F.div (F.sub (F.lit 0) effective) (F.lit 8))))
    F.round 1 (floor0 F (cap F (F.lit 100) score))

/-- `risk_tags`: the decayed weight of every tag that has one. -/
def riskTagsOf (tags : Dict FraudTag (TagState F)) : List (String × ℚ) :=
  (tags.filter fun e => F.lt (F.lit (1 / 1000000)) e.2.w).map fun e =>
    (e.1.name, F.round 4 e.2.w)

/-- The clock pinned to the stored one: it never runs backwards. -/
def pinClock (clock : DateTime) (last : Option DateTime) : DateTime :=
  match last with
  | some l => if clock.instant < l.instant then l else clock
  | none => clock

def foldedState (now : DateTime) (last : Option DateTime) (prev : AccountState F)
    (items : List SignalItem) : AccountState F :=
  items.foldl (foldItem F iso now)
    { prev with fraudTagStates := decayTags F now last (loadTagStates F prev) }

/-- `process_signals` with the clock reading `clock` and no tenure given, which counts as
`RISK_TENURE_PRIOR_DAYS`. -/
def processSignals (clock : DateTime) (prev : Option (AccountState F))
    (signals outcomes : List SignalItem) : Except PyError (SignalsOutput (AccountState F)) :=
  let st := prev.getD (AccountState.empty F)
  -- the last update of the stored state is its clock
  let last := st.lastUpdated.bind (parseIso iso)
  let now := pinClock clock last
  let folded := foldedState F iso now last st (signals ++ outcomes)
  let score := riskScore F folded.fraudTagStates (F.lit 14)
  (tierOf score).map fun tier =>
    { riskScore := score
      riskTier := tier
      riskTags := riskTagsOf F folded.fraudTagStates
      repeatedAcross := repeatedTags iso now folded.recent
      state :=
        { fraudTagStates := folded.fraudTagStates
          recent := pruneRecent iso now folded.recent
          denoms := folded.denoms
          convSeen := pruneSeen iso now folded.convSeen
          lastUpdated := some (iso.isoformat now) } }

end

end DostReview.Engine
