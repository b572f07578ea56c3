import DostReview.Engine.Resumed
import DostReview.Risk.Agreement

/-!
# Rebuilding the risk tables

What is stored of a conversation, and every count of a velocity tag, can be computed anew from
`signal_event` alone, each session by one call of the engine with all of its records.
-/
namespace DostReview.Risk

open Locking Engine

variable {F : FloatOps} (iso : IsoFormat)

/-- One call of `process_conversation` with all records of a session, in the order in which they
were filed. -/
def wholeSession (rows : List SignalEventRow) : ConversationOutput ConversationState :=
  processConversation iso none (rows.flatMap rowEvents)

/-- The conversation state that such a call stores, none for a session without records. -/
def rebuilt (rows : List SignalEventRow) : Option ConversationState :=
  if rows = [] then none else some (wholeSession iso rows).state

/-- The records of a session, taken together, derive the tag about the profile. -/
def DerivedFrom (rows : List SignalEventRow) (t : FraudTag) (p : String) : Prop :=
  ∃ d ∈ (wholeSession iso rows).derivedTags, d.tag = t.name ∧ d.profileId = p

theorem replay_eq_rebuilt (rows : List SignalEventRow) : replay iso rows = rebuilt iso rows := by
  induction rows using List.reverseRecOn with
  | nil => rfl
  | append_singleton rows row ih =>
    have more : rebuilt iso (rows ++ [row]) = some (wholeSession iso (rows ++ [row])).state :=
      if_neg (by simp)
    rw [replay_append, ih, replayRow, more, wholeSession, List.flatMap_append,
      List.flatMap_singleton]
    by_cases first : rows = []
    · simp [first, rebuilt]
    · rw [rebuilt, if_neg first, processConversation_append, wholeSession]

theorem fired_rebuilt (rows : List SignalEventRow) (t : FraudTag) (p : String) :
    firedKey t.name p ∈ (before (rebuilt iso rows)).fired ↔ DerivedFrom iso rows t p := by
  unfold rebuilt
  split
  next none =>
    simp [none, DerivedFrom, wholeSession, processConversation, ConversationState.empty]
  next =>
    rw [wholeSession]
    refine (fired_iff_derived iso none _ _).trans ?_
    simp only [Option.getD_none, ConversationState.empty, List.not_mem_nil, false_or]
    refine exists_congr fun d => and_congr_right fun member => ⟨fun same => ?_, ?_⟩
    · have plain := derivedNames_plain d.tag (derived_name iso none member)
      obtain ⟨tag, profile⟩ := firedKey_inj same t.name_plain plain
      exact ⟨tag.symm, profile.symm⟩
    · rintro ⟨tag, rfl⟩
      rw [tag]

/-- What `signal_event` says of the other tables. -/
structure Rebuildable (db : EngineDb F) : Prop where
  conversations : ∀ s, db (.conversationRisk s) = rebuilt iso (db (.signalEvents s))
  counts : ∀ p, ∀ t ∈ FraudTag.velocity, ∃ S : Finset String,
    (∀ s, s ∈ S ↔ DerivedFrom iso (db (.signalEvents s)) t p) ∧ (accountOf db p).count t = S.card

variable {iso} (hashtext : String → ℤ) {T : Type} [DecidableEq T] (call : T → RiskCall)
  (clock : T → DateTime)

/-- In every state of every interleaving of ingests, the conversations and the counts of the
accounts are what one call of the engine for each session makes of the records on file. -/
theorem rebuilt_from_file {c : RiskConf T ConversationState (AccountState F)}
    (h : Reachable (programs (vendored F iso) hashtext call clock) RiskDb.empty c)
    (known : ∀ t o, call t = .outcome o → o.tag ∈ outcomeTags) : Rebuildable iso c.db := by
  have stored : ∀ s, c.db (.conversationRisk s) = rebuilt iso (c.db (.signalEvents s)) := fun s =>
    ((filing hashtext call clock h).folded s).trans (replay_eq_rebuilt iso _)
  refine ⟨stored, fun p t velocity => ?_⟩
  obtain ⟨S, fired, count⟩ := (agrees hashtext call clock h known).counted p t velocity
  refine ⟨S, fun s => ?_, count⟩
  rw [fired, FiredIn, stored, fired_rebuilt]

/-- A message of `"p"` with one signal. -/
def messageWith (eventId name : String) : SignalRecord :=
  { plainRecord with
    eventId := eventId
    ts := "1970-01-01T00:00:00Z"
    signals := [{ name := name, confidence := .fin 1 }] }

/-- First the claim, then the ask. -/
def claimThenAsk (second : Bool) : RiskCall :=
  .record (if second then messageWith "f" "money_ask" else messageWith "e" "identity_claim")

/-- The tag of the pair is derived from the two records on file, and counted once. -/
theorem rebuilt_from_two_records :
    ∃ c : RiskConf Bool ConversationState (AccountState rationalOps),
      Rebuildable epochDates c.db ∧
      DerivedFrom epochDates (c.db (.signalEvents "s")) .identityThenMoney "p" := by
  have mapped : ∀ e n, toConversationEvent (messageWith e n) = .ok (eventOf (messageWith e n) none) :=
    fun _ _ => rfl
  obtain ⟨a, db, ran, _, rows, _⟩ := vendored_ingest rationalOps epochDates (fun _ => 0) ⟨0, 0⟩
    RiskDb.empty (mapped "e" "identity_claim") rfl
  have onFirst : db (.signalEvents "s") = [signalEventRow (messageWith "e" "identity_claim")] := rows _
  have unseen : onFile (db (.signalEvents "s")) "f" = false := by
    rw [onFirst]
    decide
  obtain ⟨a', db', ran', _, rows', _⟩ := vendored_ingest rationalOps epochDates (fun _ => 0) ⟨0, 0⟩
    db (mapped "f" "money_ask") unseen
  have started : Reachable (programs (vendored rationalOps epochDates) (fun _ => 0) claimThenAsk
      fun _ => ⟨0, 0⟩) RiskDb.empty _ :=
    Reachable.start.solo (t := false) (by rintro u held w rest ⟨⟩) rfl ran
  have reached := started.solo (t := true)
    (Quiet.committed (by rintro u held w rest ⟨⟩) _ _ _ _) rfl ran'
  refine ⟨_, rebuilt_from_file (fun _ => 0) claimThenAsk (fun _ => ⟨0, 0⟩) reached
    (by rintro t o ⟨⟩), ?_⟩
  have both : db' (.signalEvents "s") = [signalEventRow (messageWith "e" "identity_claim"),
      signalEventRow (messageWith "f" "money_ask")] := by
    rw [rows', storedDb_signalEvents, onFirst]
    rfl
  simp only [both]
  exact ⟨⟨"identity_then_money", "p", "1970-01-01T00:00:00Z"⟩, by decide +kernel, rfl, rfl⟩

end DostReview.Risk
