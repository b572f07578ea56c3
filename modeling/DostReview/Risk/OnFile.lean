import Mathlib.Data.List.Induction
import DostReview.Engine.Vendored
import DostReview.Risk.Serializable

/-!
# What is on file is what was folded

With the vendored engine, the conversation state of a session is the engine's own fold of
the session's rows in the order in which they were filed. The fold skips a row whose
timestamp cannot be read, and nothing else does.
-/
namespace DostReview.Risk

open Locking Engine

variable (F : FloatOps) (iso : IsoFormat) (hashtext : String → ℤ)

/-- The vendored engine rejects nothing: a new record that maps is stored and folded. -/
theorem vendored_ingest (clock : DateTime) {record : SignalRecord} {event : Event}
    (db : RiskDb ConversationState (AccountState F)) (mapped : toConversationEvent record = .ok event)
    (unseen : onFile (db (.signalEvents record.sessionId)) record.eventId = false) :
    ∃ a db', (ingestRecord (vendored F iso) hashtext clock record).run db = .ok (a, db') ∧
      a ≠ .duplicate ∧
      let stored := storedDb db record
        (processConversation iso (db (.conversationRisk record.sessionId)) [event])
      (∀ s, db' (.signalEvents s) = stored (.signalEvents s)) ∧
        ∀ s, db' (.conversationRisk s) = stored (.conversationRisk s) := by
  rw [ingestRecord_stored (vendored F iso) hashtext clock mapped unseen rfl]
  by_cases nothing : senderSignals record (processConversation iso
      (db (.conversationRisk record.sessionId)) [event]).derivedTags = []
  · rw [if_pos nothing]
    exact ⟨_, _, rfl, by simp, fun _ => rfl, fun _ => rfl⟩
  · rw [if_neg nothing, fold_run, storedDb_profileRisk]
    obtain ⟨out, _, _, answered, _⟩ := processSignals_ok F iso clock
      ((db (.profileRisk record.srcProfileId)).map (·.state))
      (senderSignals record (processConversation iso (db (.conversationRisk record.sessionId))
        [event]).derivedTags) []
    simp only [vendored, answered]
    exact ⟨_, _, rfl, by simp [foldedAnswer], fun _ => by simp, fun _ => by simp⟩

/-- The events of a row: the one its record maps to. -/
def rowEvents (row : SignalEventRow) : List Event :=
  (toConversationEvent row.record).toOption.toList

def replayRow (prev : Option ConversationState) (row : SignalEventRow) :
    Option ConversationState :=
  some (processConversation iso prev (rowEvents row)).state

/-- The conversation state that folding these rows one by one leaves. -/
def replay (rows : List SignalEventRow) : Option ConversationState :=
  rows.foldl (replayRow iso) none

/-- The turn count of a stored state; 0 when there is no row. -/
def turnsOf (state : Option ConversationState) : ℕ := (state.map (·.turns)).getD 0

theorem replay_append (rows : List SignalEventRow) (row : SignalEventRow) :
    replay iso (rows ++ [row]) = replayRow iso (replay iso rows) row := by
  simp [replay]

theorem turnsOf_before (state : Option ConversationState) :
    (before state).turns = turnsOf state := by
  cases state <;> rfl

/-- A mapped row advances the turn count exactly when its timestamp can be read. -/
theorem replay_turns {row : SignalEventRow} {event : Event}
    (mapped : toConversationEvent row.record = .ok event) (rows : List SignalEventRow) :
    turnsOf (replay iso (rows ++ [row])) =
      turnsOf (replay iso rows) + (if (parseIso iso row.record.ts).isSome then 1 else 0) := by
  have events : rowEvents row = [event] := by simp [rowEvents, mapped, Except.toOption]
  obtain ⟨stage, _, rfl⟩ := toConversationEvent_ok mapped
  rw [replay_append, replayRow, events, turnsOf, Option.map_some, Option.getD_some,
    processConversation_turns, turnsOf_before, eventOf]

/-- The tables of a run of ingests: every conversation state is the fold of its session's
rows, and every row is a mapped record that one of the calls delivered. -/
structure Filing (delivered : SignalRecord → Prop) (db : RiskDb ConversationState (AccountState F)) :
    Prop where
  folded : ∀ s, db (.conversationRisk s) = replay iso (db (.signalEvents s))
  rows : ∀ s, ∀ row ∈ db (.signalEvents s), delivered row.record ∧
    ∃ event, toConversationEvent row.record = .ok event

variable {F iso}

theorem Filing.empty (delivered : SignalRecord → Prop) : Filing F iso delivered RiskDb.empty where
  folded _ := rfl
  rows _ row h := by cases h

theorem Filing.stored {delivered : SignalRecord → Prop}
    {db : RiskDb ConversationState (AccountState F)} (h : Filing F iso delivered db)
    {record : SignalRecord} (given : delivered record) {event : Event}
    (mapped : toConversationEvent record = .ok event) :
    Filing F iso delivered (storedDb db record
      (processConversation iso (db (.conversationRisk record.sessionId)) [event])) where
  folded s := by
    rw [storedDb_conversationRisk, storedDb_signalEvents]
    by_cases here : s = record.sessionId
    · subst here
      have events : rowEvents (signalEventRow record) = [event] := by
        simp [rowEvents, signalEventRow, mapped, Except.toOption]
      rw [if_pos rfl, if_pos rfl, replay_append, replayRow, events, ← h.folded]
    · rw [if_neg here, if_neg here, h.folded]
  rows s row hrow := by
    rw [storedDb_signalEvents] at hrow
    by_cases here : s = record.sessionId
    · rw [if_pos here, List.mem_append, List.mem_singleton] at hrow
      rcases hrow with old | rfl
      · exact h.rows s row old
      · exact ⟨given, event, mapped⟩
    · rw [if_neg here] at hrow
      exact h.rows s row hrow

/-- The profile's tables play no part. -/
theorem Filing.of_same {delivered : SignalRecord → Prop}
    {db db' : RiskDb ConversationState (AccountState F)} (h : Filing F iso delivered db)
    (conv : ∀ s, db' (.conversationRisk s) = db (.conversationRisk s))
    (rows : ∀ s, db' (.signalEvents s) = db (.signalEvents s)) : Filing F iso delivered db' where
  folded s := by rw [conv, rows, h.folded]
  rows s row hrow := h.rows s row (rows s ▸ hrow)

variable {T : Type} (call : T → RiskCall) (clock : T → DateTime)

def Delivered (record : SignalRecord) : Prop := ∃ t, call t = .record record

theorem Filing.afterCall {db db' : RiskDb ConversationState (AccountState F)} {t : T}
    {a : IngestResponse} (h : Filing F iso (Delivered call) db)
    (ran : (programs (vendored F iso) hashtext call clock t).run db = .ok (a, db')) :
    Filing F iso (Delivered call) db' := by
  unfold programs at ran
  cases made : call t with
  | record r =>
    rw [made] at ran
    cases ingestRecord_run (vendored F iso) hashtext (clock t) ran with
    | duplicate _ => exact h
    | stored event out tier mapped _ conv _ =>
      obtain rfl := Except.ok.inj conv
      exact h.stored ⟨t, made⟩ mapped
    | folded event out sig mapped _ conv _ _ =>
      obtain rfl := Except.ok.inj conv
      exact (h.stored ⟨t, made⟩ mapped).of_same (by simp) (by simp)
  | outcome o =>
    simp only [made, RiskCall.program, ingestOutcome_run] at ran
    split at ran
    · cases ran
    · simp only [Except.ok.injEq, Prod.mk.injEq] at ran
      obtain ⟨-, rfl⟩ := ran
      exact h.of_same (by simp [reportedDb, Store.write]) (by simp [reportedDb, Store.write])

variable [DecidableEq T]

theorem filing {c : RiskConf T ConversationState (AccountState F)}
    (h : Reachable (programs (vendored F iso) hashtext call clock) RiskDb.empty c) :
    Filing F iso (Delivered call) c.db :=
  h.keeps (fun t => program_covered (vendored F iso) hashtext (clock t) (call t))
    (fun _ _ _ _ ran inv => inv.afterCall hashtext call clock ran) (Filing.empty _)

/-! ### Counting the turns -/

/-- The record of a delivery is on file, the state of its session is the fold of what is
on file there, and the record's own step of that fold counted a turn. -/
def Folded (iso : IsoFormat) (db : RiskDb ConversationState (AccountState F))
    (sessionId eventId : String) : Prop :=
  ∃ earlier row later, db (.signalEvents sessionId) = earlier ++ row :: later ∧
    row.eventId = eventId ∧ db (.conversationRisk sessionId) = replay iso (earlier ++ row :: later) ∧
    turnsOf (replay iso (earlier ++ [row])) = turnsOf (replay iso earlier) + 1

/-- Nothing is on file unless it was folded: every session's rows are its turns, and a
delivery answered as a repeat was folded. -/
structure NothingUnfolded (iso : IsoFormat) (call : T → RiskCall)
    (c : RiskConf T ConversationState (AccountState F)) : Prop where
  counts : ∀ s, (c.db (.signalEvents s)).length = turnsOf (c.db (.conversationRisk s))
  repeats : ∀ t r, call t = .record r → c.txn t = .committed .duplicate →
    Folded iso c.db r.sessionId r.eventId

theorem replay_length {rows : List SignalEventRow}
    (good : ∀ row ∈ rows, (∃ event, toConversationEvent row.record = .ok event) ∧
      (parseIso iso row.record.ts).isSome) : turnsOf (replay iso rows) = rows.length := by
  induction rows using List.reverseRecOn with
  | nil => rfl
  | append_singleton rows row ih =>
    obtain ⟨⟨event, mapped⟩, readable⟩ := good row (by simp)
    rw [replay_turns iso mapped, if_pos readable, ih fun r hr => good r (by simp [hr])]
    simp

/-- A record that maps but has no readable timestamp goes on file without a turn. -/
theorem unread_on_file (F : FloatOps) (iso : IsoFormat) {t : T} {r : SignalRecord}
    (made : call t = .record r) {event : Event} (mapped : toConversationEvent r = .ok event)
    (unread : parseIso iso r.ts = none) :
    ∃ c, Reachable (programs (vendored F iso) hashtext call clock) RiskDb.empty c ∧
      ¬NothingUnfolded iso call c := by
  obtain ⟨stage, _, rfl⟩ := toConversationEvent_ok mapped
  obtain ⟨a, db, ran, _, rows, states⟩ := vendored_ingest F iso hashtext (clock t)
    RiskDb.empty mapped rfl
  have started : (programs (vendored F iso) hashtext call clock t).run RiskDb.empty = .ok (a, db) := by
    rw [programs, made]
    exact ran
  refine ⟨_, Reachable.start.solo (by rintro u held w rest ⟨⟩) rfl started, fun claim => ?_⟩
  have counts := claim.counts r.sessionId
  dsimp only at counts
  rw [rows, states, storedDb_signalEvents, storedDb_conversationRisk, if_pos rfl, if_pos rfl,
    turnsOf, Option.map_some, Option.getD_some, processConversation_turns, eventOf, unread] at counts
  simp [ConversationState.empty] at counts

/-- Every row on file was folded, in every state of every interleaving, exactly when every
delivered record that the mapper reads carries a timestamp the engine can read. -/
theorem on_file_iff_folded :
    (∀ c, Reachable (programs (vendored F iso) hashtext call clock) RiskDb.empty c →
      NothingUnfolded iso call c) ↔
    ∀ t r event, call t = .record r → toConversationEvent r = .ok event →
      (parseIso iso r.ts).isSome := by
  constructor
  · intro all t r event made mapped
    by_contra unread
    obtain ⟨c, reached, not⟩ := unread_on_file hashtext call clock F iso made mapped
      (by simpa using unread)
    exact not (all c reached)
  · intro readable c reached
    have inv := filing hashtext call clock reached
    have good : ∀ s, ∀ row ∈ c.db (.signalEvents s),
        (∃ event, toConversationEvent row.record = .ok event) ∧
          (parseIso iso row.record.ts).isSome := by
      intro s row hrow
      obtain ⟨⟨t, made⟩, event, mapped⟩ := inv.rows s row hrow
      exact ⟨⟨event, mapped⟩, readable t _ event made mapped⟩
    -- every row on file is one turn of the replay that the stored state is
    refine ⟨fun s => ?_, fun t r made answered => ?_⟩
    · rw [inv.folded s, replay_length (good s)]
    · obtain ⟨d, hd, on⟩ := duplicate_filed (vendored F iso) hashtext call clock reached answered
      rw [made] at hd
      cases hd
      obtain ⟨row, member, same⟩ := List.any_eq_true.mp on
      obtain ⟨earlier, later, split⟩ := List.append_of_mem member
      obtain ⟨⟨event, mapped⟩, read⟩ := good _ row member
      refine ⟨earlier, row, later, split, by simpa using same, ?_, ?_⟩
      · rw [inv.folded, split]
      · rw [replay_turns iso mapped, if_pos read]

/-! ### Concrete runs -/

def epochDates : IsoFormat where
  fromisoformat s := if s = "1970-01-01T00:00:00+00:00" then some (0, some 0) else none
  isoformat _ := "1970-01-01T00:00:00+00:00"

/-- A message the gate blocked as an OTP request. -/
def blockedRecord : SignalRecord :=
  { modelVersion := "m", ts := "1970-01-01T00:00:00Z", eventId := "e", sessionId := "s"
    srcProfileId := "p", dstProfileId := some "q", verdict := "reject", category := "otp_request" }

/-- A date parser that reads nothing, as the real one reads nothing in `"yesterday"`. -/
def noDates : IsoFormat := ⟨fun _ => none, fun _ => ""⟩

/-- A record stamped `"yesterday"` goes on file unfolded. -/
theorem unreadable_record_filed :
    ¬∀ c, Reachable (programs (vendored rationalOps noDates) (fun _ => 0)
        (fun _ : Unit => .record { plainRecord with ts := "yesterday" }) fun _ => ⟨0, 0⟩)
      RiskDb.empty c →
      NothingUnfolded noDates (fun _ : Unit => .record { plainRecord with ts := "yesterday" }) c := by
  intro claim
  obtain ⟨c, reached, not⟩ := unread_on_file (fun _ => 0)
    (fun _ : Unit => .record { plainRecord with ts := "yesterday" }) (fun _ => ⟨0, 0⟩) rationalOps
    noDates (t := ()) rfl rfl rfl
  exact not (claim c reached)

end DostReview.Risk
