import DostReview.Risk.Mapping

/-!
# The engine as the risk service sees it

`service.py` loads whatever `ENGINE_PATH` names: an engine is any pair of functions of the
documented shape, each free to answer, to return an `{error}` result or to raise.
-/
namespace DostReview.Risk

structure ConversationOutput (C : Type) where
  derivedTags : List DerivedTag
  state : C

/-- `RISK_TIERS`, with the CHECK of `profile_risk.risk_tier`. -/
inductive RiskTier
  | none
  | elevated
  | high
  | critical
  deriving DecidableEq

structure SignalsOutput (P : Type) where
  riskScore : ℚ
  riskTier : RiskTier
  riskTags : List (String × ℚ)
  repeatedAcross : List String
  state : P

/-- The ways an engine call does not succeed: an `{error: {message}}` result, or an
exception. -/
inductive EngineFailure
  | error (message : String)
  | raised (e : PyError)
  deriving DecidableEq

/-- `process_conversation` and `process_signals`, with the clock reading of the latter. -/
structure FraudEngine (C P : Type) where
  processConversation : String → Option C → List Event →
    Except EngineFailure (ConversationOutput C)
  processSignals : DateTime → String → Option P → List SignalItem → List SignalItem →
    Except EngineFailure (SignalsOutput P)

end DostReview.Risk
