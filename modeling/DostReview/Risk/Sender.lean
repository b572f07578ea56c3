import DostReview.Risk.Serializable

/-!
# Evidence goes to the sender

What a stored record can change: its session's rows, and the account and the queue of its
sender. The signals handed to `process_signals` are the sender's own derived tags, whatever
else the conversation engine derives.
-/
namespace DostReview.Risk

open Locking

/-- The sender's own derived tags as signals, the receiver as counterparty if it is somebody
else. -/
def ownSignals (record : SignalRecord) (derived : List DerivedTag) : List SignalItem :=
  (derived.filter fun d => d.profileId = record.srcProfileId).map fun d =>
    { tag := d.tag
      conversationId := some record.sessionId
      counterpartyId := record.dstProfileId.filter fun p => p ≠ "" ∧ p ≠ record.srcProfileId
      createdAt := some d.ts }

theorem counterparty_participants (record : SignalRecord) :
    counterparty (participants record) record.srcProfileId =
      record.dstProfileId.filter fun p => p ≠ "" ∧ p ≠ record.srcProfileId := by
  unfold counterparty participants
  -- the sender is filtered out, so at most the receiver is left to sort
  cases record.dstProfileId with
  | none => by_cases unnamed : record.srcProfileId = "" <;> simp [unnamed]
  | some receiver =>
    by_cases blank : receiver = ""
    · by_cases unnamed : record.srcProfileId = "" <;> simp [Option.filter, blank, unnamed]
    · by_cases self : receiver = record.srcProfileId
      · by_cases unnamed : record.srcProfileId = "" <;> simp [Option.filter, self, unnamed]
      · by_cases unnamed : record.srcProfileId = "" <;> simp [Option.filter, blank, self, unnamed]

theorem senderSignals_eq (record : SignalRecord) (derived : List DerivedTag) :
    senderSignals record derived = ownSignals record derived := by
  unfold senderSignals derivedToSignals ownSignals
  have keep : (derived.filter fun d =>
      some record.srcProfileId = none ∨ some record.srcProfileId = some d.profileId) =
      derived.filter fun d => d.profileId = record.srcProfileId := by
    apply List.filter_congr
    intro d _
    simp [eq_comm]
  rw [keep]
  apply List.map_congr_left
  intro d kept
  have sender : d.profileId = record.srcProfileId := by simpa using (List.mem_filter.mp kept).2
  rw [sender, counterparty_participants]

section

variable {C P : Type}

/-- A stored record leaves everything alone but its session and its sender, and adds at most
one row to each table that keeps a history. -/
structure Confined (record : SignalRecord) (db db' : RiskDb C P) : Prop where
  event : db' (.signalEvents record.sessionId) =
    db (.signalEvents record.sessionId) ++ [signalEventRow record]
  otherEvents : ∀ s, s ≠ record.sessionId → db' (.signalEvents s) = db (.signalEvents s)
  otherConversations : ∀ s, s ≠ record.sessionId → db' (.conversationRisk s) = db (.conversationRisk s)
  otherProfiles : ∀ p, p ≠ record.srcProfileId → db' (.profileRisk p) = db (.profileRisk p)
  outcomes : ∀ p, db' (.outcomeEvents p) = db (.outcomeEvents p)
  otherQueues : ∀ p, p ≠ record.srcProfileId → db' (.reviewQueue p) = db (.reviewQueue p)
  queue : db' (.reviewQueue record.srcProfileId) = db (.reviewQueue record.srcProfileId) ∨
    ∃ row, row.profileId = record.srcProfileId ∧
      db' (.reviewQueue record.srcProfileId) = db (.reviewQueue record.srcProfileId) ++ [row]

@[simp] theorem storedDb_outcomeEvents (db : RiskDb C P) (record : SignalRecord)
    (out : ConversationOutput C) (p : String) :
    storedDb db record out (.outcomeEvents p) = db (.outcomeEvents p) := by
  simp [storedDb, Store.write]

@[simp] theorem storedDb_reviewQueue (db : RiskDb C P) (record : SignalRecord)
    (out : ConversationOutput C) (p : String) :
    storedDb db record out (.reviewQueue p) = db (.reviewQueue p) := by
  simp [storedDb, Store.write]

theorem foldedDb_otherQueue (db : RiskDb C P) (p : String) (session reason : Option String)
    (evidence : JsonObject) (out : SignalsOutput P) {q : String} (other : q ≠ p) :
    foldedDb db p session reason evidence out (.reviewQueue q) = db (.reviewQueue q) := by
  unfold foldedDb
  split <;> simp [Store.write, other]

/-- A fold enqueues its own row or leaves the queue of its profile as it is. -/
theorem foldedDb_queue (db : RiskDb C P) (p : String) (session reason : Option String)
    (evidence : JsonObject) (out : SignalsOutput P) :
    foldedDb db p session reason evidence out (.reviewQueue p) = db (.reviewQueue p) ∨
      foldedDb db p session reason evidence out (.reviewQueue p) =
        db (.reviewQueue p) ++ [queueRow p session reason evidence out] := by
  unfold foldedDb
  split
  · right; simp [Store.write]
  · left; simp [Store.write]

theorem Confined.stored (db : RiskDb C P) (record : SignalRecord) (out : ConversationOutput C) :
    Confined record db (storedDb db record out) where
  event := by simp [storedDb_signalEvents]
  otherEvents s other := by simp [storedDb_signalEvents, other]
  otherConversations s other := by simp [storedDb_conversationRisk, other]
  otherProfiles p _ := storedDb_profileRisk db record out p
  outcomes p := storedDb_outcomeEvents db record out p
  otherQueues p _ := storedDb_reviewQueue db record out p
  queue := .inl (storedDb_reviewQueue db record out _)

/-- A fold into the sender stays within what its record may change. -/
theorem Confined.folded {record : SignalRecord} {db db' : RiskDb C P} (h : Confined record db db')
    (untouched : db' (.reviewQueue record.srcProfileId) = db (.reviewQueue record.srcProfileId))
    (session reason : Option String) (evidence : JsonObject) (sig : SignalsOutput P) :
    Confined record db (foldedDb db' record.srcProfileId session reason evidence sig) where
  event := by rw [foldedDb_signalEvents, h.event]
  otherEvents s other := by rw [foldedDb_signalEvents, h.otherEvents s other]
  otherConversations s other := by rw [foldedDb_conversationRisk, h.otherConversations s other]
  otherProfiles p other := by rw [foldedDb_profileRisk, if_neg other, h.otherProfiles p other]
  outcomes p := by rw [foldedDb_outcomeEvents, h.outcomes p]
  otherQueues p other := by rw [foldedDb_otherQueue _ _ _ _ _ _ other, h.otherQueues p other]
  queue := by
    rw [← untouched]
    rcases foldedDb_queue db' record.srcProfileId session reason evidence sig with same | added
    · exact .inl same
    · exact .inr ⟨_, rfl, added⟩

variable (engine : FraudEngine C P) (hashtext : String → ℤ) (clock : DateTime)

theorem recordRun_confined {record : SignalRecord} {db db' : RiskDb C P} {a : IngestResponse}
    (ran : RecordRun engine clock record db a db') (fresh : a ≠ .duplicate) :
    Confined record db db' := by
  cases ran with
  | duplicate _ => exact absurd rfl fresh
  | stored event out tier _ _ _ _ => exact .stored db record out
  | folded event out sig _ _ _ _ _ =>
    apply Confined.folded (.stored db record out)
    exact storedDb_reviewQueue db record out _

/-- The engine call of a stored record's fold, as both engines answer it, decides the run. -/
theorem ingestRecord_congr {record : SignalRecord} {event : Event} {out : ConversationOutput C}
    {db : RiskDb C P} (mapped : toConversationEvent record = .ok event)
    (unseen : onFile (db (.signalEvents record.sessionId)) record.eventId = false)
    (conv : engine.processConversation record.sessionId (db (.conversationRisk record.sessionId))
      [event] = .ok out) {engine' : FraudEngine C P}
    (conversations : engine'.processConversation = engine.processConversation)
    (asked : ownSignals record out.derivedTags ≠ [] →
      engine'.processSignals clock record.srcProfileId
          ((db (.profileRisk record.srcProfileId)).map (·.state))
          (ownSignals record out.derivedTags) [] =
        engine.processSignals clock record.srcProfileId
          ((db (.profileRisk record.srcProfileId)).map (·.state))
          (ownSignals record out.derivedTags) []) :
    (ingestRecord engine' hashtext clock record).run db =
      (ingestRecord engine hashtext clock record).run db := by
  have conv' := conversations ▸ conv
  rw [ingestRecord_stored engine hashtext clock mapped unseen conv,
    ingestRecord_stored engine' hashtext clock mapped unseen conv', senderSignals_eq]
  by_cases none : ownSignals record out.derivedTags = []
  · rw [if_pos none, if_pos none]
  · rw [if_neg none, if_neg none, fold_run, fold_run, storedDb_profileRisk, asked none]

/-- A stored record changes its session, and its sender's account and queue, at most. The
engine is handed the sender's own derived tags and no other list: it is its answer to these
that is stored, and an engine that answers everything else differently leaves the same
tables. With no tag of the sender there is no fold. -/
theorem record_folds_into_sender {record : SignalRecord} {db db' : RiskDb C P} {a : IngestResponse}
    (ran : (ingestRecord engine hashtext clock record).run db = .ok (a, db'))
    (fresh : a ≠ .duplicate) :
    Confined record db db' ∧
    ∃ event out, toConversationEvent record = .ok event ∧
      engine.processConversation record.sessionId (db (.conversationRisk record.sessionId))
        [event] = .ok out ∧
      (ownSignals record out.derivedTags = [] →
        ∀ p, db' (.profileRisk p) = db (.profileRisk p) ∧
          db' (.reviewQueue p) = db (.reviewQueue p)) ∧
      (ownSignals record out.derivedTags ≠ [] →
        ∃ sig, engine.processSignals clock record.srcProfileId
            ((db (.profileRisk record.srcProfileId)).map (·.state))
            (ownSignals record out.derivedTags) [] = .ok sig ∧
          a = foldedAnswer sig ∧
          (db' (.profileRisk record.srcProfileId)).map (·.state) = some sig.state) ∧
      ∀ engine' : FraudEngine C P, engine'.processConversation = engine.processConversation →
        (ownSignals record out.derivedTags ≠ [] →
          engine'.processSignals clock record.srcProfileId
              ((db (.profileRisk record.srcProfileId)).map (·.state))
              (ownSignals record out.derivedTags) [] =
            engine.processSignals clock record.srcProfileId
              ((db (.profileRisk record.srcProfileId)).map (·.state))
              (ownSignals record out.derivedTags) []) →
        (ingestRecord engine' hashtext clock record).run db = .ok (a, db') := by
  have whole := ingestRecord_run engine hashtext clock ran
  constructor
  · exact recordRun_confined engine clock whole fresh
  cases whole with
  | duplicate _ => exact absurd rfl fresh
  | stored event out tier mapped unseen conv silent =>
    rw [senderSignals_eq] at silent
    refine ⟨event, out, mapped, conv, fun _ p => ?_, fun tags => absurd silent tags, ?_⟩
    · exact ⟨storedDb_profileRisk db record out p, storedDb_reviewQueue db record out p⟩
    · intro engine' conversations asked
      rw [ingestRecord_congr engine hashtext clock mapped unseen conv conversations asked, ran]
  | folded event out sig mapped unseen conv tags folds =>
    rw [senderSignals_eq] at tags folds
    refine ⟨event, out, mapped, conv, fun silent => absurd silent tags, fun _ => ?_, ?_⟩
    · refine ⟨sig, folds, rfl, ?_⟩
      simp [foldedDb_profileRisk, upsertProfile, profileRow]
    · intro engine' conversations asked
      rw [ingestRecord_congr engine hashtext clock mapped unseen conv conversations asked, ran]

end

/-- An engine that derives a tag of the receiver and two of the sender from any event. -/
def gossipEngine : FraudEngine Unit Unit where
  processConversation _ _ _ :=
    .ok ⟨[⟨"payment_claim", "q", "t1"⟩, ⟨"money_ask", "p", "t2"⟩, ⟨"money_ask", "p", "t2"⟩], ()⟩
  processSignals _ _ _ signals _ :=
    .ok ⟨if signals.length = 2 then queueAt else 0, .high, [], [], ()⟩

/-- Two tags of the sender and one of the receiver: the sender's two reach the threshold, and
the receiver's account stays as it was. -/
theorem record_folds_into_sender_gossip :
    let record : SignalRecord :=
      { modelVersion := "v", ts := "t", eventId := "e", sessionId := "s", srcProfileId := "p",
        dstProfileId := some "q", verdict := "allow", category := "none" }
    ∃ db', (ingestRecord gossipEngine (fun _ => 0) ⟨0, 0⟩ record).run RiskDb.empty =
        .ok (.folded .high queueAt [], db') ∧
      Confined record (RiskDb.empty : RiskDb Unit Unit) db' := by
  intro record
  have event : toConversationEvent record = .ok (eventOf record none) := rfl
  obtain ⟨db', ran⟩ : ∃ db', (ingestRecord gossipEngine (fun _ => 0) ⟨0, 0⟩ record).run
      RiskDb.empty = .ok (.folded .high queueAt [], db') := by
    rw [ingestRecord_stored gossipEngine _ _ event rfl rfl, if_neg (by decide), fold_run]
    exact ⟨_, rfl⟩
  exact ⟨db', ran, (record_folds_into_sender gossipEngine _ _ ran (by simp)).1⟩

end DostReview.Risk
