import DostReview.Risk.Folding

/-!
# Concurrent ingests

Any number of service calls in flight over one database, interleaved statement by
statement. The advisory locks make what commits equal to running the committed calls one
after another, and the answers tell which delivery of an event was the one that counted.
-/
namespace DostReview.Risk

open Locking

variable {C P : Type} (engine : FraudEngine C P) (hashtext : String → ℤ)

/-- What an answer says about the stored state: the tier of a record with nothing to fold
is read without the profile's lock and left out. -/
def eraseTier : IngestResponse → IngestResponse
  | .noFold _ => .noFold .none
  | answer => answer

@[simp] theorem eraseTier_eq_duplicate (a : IngestResponse) :
    eraseTier a = .duplicate ↔ a = .duplicate := by
  cases a <;> simp [eraseTier]

def guardOf (l : Loc) : ℤ := hashtext (lockKey l)

/-! ### Every statement is made under its lock -/

theorem fold_covered (clock : DateTime) (profileId : String) (signals outcomes : List SignalItem)
    (session reason : Option String) (evidence : JsonObject) (held : List ℤ) :
    Covered (guardOf hashtext) eraseTier held
      (fold engine hashtext clock profileId signals outcomes session reason evidence) := by
  -- the profile's lock is taken first; the session's, if any, stays held
  refine .lock (.stmt List.mem_cons_self fun prev => ?_)
  split
  · exact .throw _
  next out _ =>
    refine .stmt List.mem_cons_self fun _ => ?_
    split
    · exact .stmt List.mem_cons_self fun _ => .ret _
    · exact .ret _

theorem answerTier_covered (profileId : String) (held : List ℤ) :
    Covered (guardOf hashtext) eraseTier held (answerTier profileId : Ingest C P) :=
  .peek (.noFold .none) (fun _ => rfl) fun _ => ⟨_, rfl, rfl⟩

theorem ingestRecord_covered (clock : DateTime) (record : SignalRecord) :
    Covered (guardOf hashtext) eraseTier [] (ingestRecord engine hashtext clock record) := by
  unfold ingestRecord
  split
  · exact .throw _
  next event _ =>
    -- under the session's lock; the tier of a record with nothing to fold is the one unguarded read
    refine .lock (.stmt List.mem_cons_self fun rows => ?_)
    dsimp only
    split
    · exact .ret _
    · refine .stmt List.mem_cons_self fun conv => ?_
      split
      · exact .throw _
      next out _ =>
        refine .stmt List.mem_cons_self fun _ => ?_
        split
        · exact answerTier_covered hashtext _ _
        · split
          · exact answerTier_covered hashtext _ _
          · exact fold_covered engine hashtext clock _ _ _ _ _ _ _

theorem program_covered (clock : DateTime) (call : RiskCall) :
    Covered (guardOf hashtext) eraseTier [] (call.program engine hashtext clock) := by
  cases call with
  | record r => exact ingestRecord_covered engine hashtext clock r
  | outcome o =>
    exact .lock (.stmt List.mem_cons_self fun _ => fold_covered engine hashtext clock _ _ _ _ _ _ _)

/-! ### Deliveries -/

/-- The `(sessionId, eventId)` a call delivers, if it delivers a record. -/
def RiskCall.delivery : RiskCall → Option (String × String)
  | .record r => some (r.sessionId, r.eventId)
  | .outcome _ => none

/-- `signal_event` has a row for the delivery. -/
def Filed (db : RiskDb C P) (d : String × String) : Prop :=
  onFile (db (.signalEvents d.1)) d.2 = true

theorem onFile_append (rows : List SignalEventRow) (record : SignalRecord) (eventId : String) :
    onFile (rows ++ [signalEventRow record]) eventId = true ↔
      onFile rows eventId = true ∨ record.eventId = eventId := by
  simp [onFile, signalEventRow]

theorem filed_storedDb (db : RiskDb C P) (record : SignalRecord) (out : ConversationOutput C)
    (d : String × String) :
    Filed (storedDb db record out) d ↔
      Filed db d ∨ (RiskCall.record record).delivery = some d := by
  obtain ⟨s, e⟩ := d
  simp only [Filed, storedDb_signalEvents, RiskCall.delivery, Option.some.injEq, Prod.mk.injEq]
  by_cases h : s = record.sessionId
  · subst h
    simp [onFile_append]
  · simp [h, Ne.symm h]

/-- What a successful call does to the deliveries on file. -/
theorem program_filed {clock : DateTime} {call : RiskCall} {db db' : RiskDb C P}
    {a : IngestResponse} (ran : (call.program engine hashtext clock).run db = .ok (a, db')) :
    (a = .duplicate ∧ db' = db ∧ ∃ d, call.delivery = some d ∧ Filed db d) ∨
    (a ≠ .duplicate ∧ (∀ d, call.delivery = some d → ¬Filed db d) ∧
      ∀ d, Filed db' d ↔ Filed db d ∨ call.delivery = some d) := by
  cases call with
  | record r =>
    have fresh (unseen : onFile (db (.signalEvents r.sessionId)) r.eventId = false) :
        ∀ d, RiskCall.delivery (.record r) = some d → ¬Filed db d := by
      rintro d ⟨⟩
      simp [Filed, unseen]
    -- the fold of the profile does not touch `signal_event`
    cases ingestRecord_run engine hashtext clock ran with
    | duplicate seen => exact .inl ⟨rfl, rfl, _, rfl, seen⟩
    | stored event out tier _ unseen =>
      exact .inr ⟨by simp, fresh unseen, filed_storedDb db r out⟩
    | folded event out sig _ unseen =>
      refine .inr ⟨by simp [foldedAnswer], fresh unseen, fun d => ?_⟩
      have same := filed_storedDb db r out d
      simpa only [Filed, foldedDb_signalEvents] using same
  | outcome o =>
    simp only [RiskCall.program, ingestOutcome_run] at ran
    split at ran
    · cases ran
    next out _ =>
      simp only [Except.ok.injEq, Prod.mk.injEq] at ran
      obtain ⟨rfl, rfl⟩ := ran
      refine .inr ⟨by simp [foldedAnswer], by rintro d ⟨⟩, fun d => ?_⟩
      simp [Filed, RiskCall.delivery, reportedDb, Store.write]

/-! ### The committed calls one by one -/

variable {T : Type} (call : T → RiskCall) (clock : T → DateTime)

def programs (t : T) : Ingest C P := (call t).program engine hashtext (clock t)

/-- The committed calls that stored something, in commit order. -/
def folds (log : List (T × IngestResponse)) : List (T × IngestResponse) :=
  log.filter fun e => e.2 ≠ .duplicate

/-- What a serial run of a log says about its deliveries. -/
structure Ledger (db final : RiskDb C P) (log : List (T × IngestResponse)) : Prop where
  serial : Serial eraseTier (programs engine hashtext call clock) db (folds log) final
  filed : ∀ d, Filed final d ↔ Filed db d ∨ ∃ e ∈ folds log, (call e.1).delivery = some d
  fresh : ∀ e ∈ folds log, ∀ d, (call e.1).delivery = some d → ¬Filed db d
  distinct : (folds log).Pairwise fun x y => ∀ d, (call x.1).delivery = some d →
    (call y.1).delivery ≠ some d
  repeats : ∀ t, (t, IngestResponse.duplicate) ∈ log → ∃ d, (call t).delivery = some d ∧
    (Filed db d ∨ ∃ e ∈ folds log, (call e.1).delivery = some d)

theorem Serial.ledger {db final : RiskDb C P} {log : List (T × IngestResponse)}
    (h : Serial eraseTier (programs engine hashtext call clock) db log final) :
    Ledger engine hashtext call clock db final log := by
  induction log generalizing db with
  | nil =>
    cases h
    exact ⟨rfl, by simp [folds], by simp [folds], List.Pairwise.nil, by simp⟩
  | cons x rest ih =>
    obtain ⟨t, a⟩ := x
    obtain ⟨mid, first, later⟩ := h
    obtain ⟨a', ran, look⟩ := outcome_ok first
    have L := ih later
    rcases program_filed engine hashtext ran with ⟨dup, rfl, d, hd, on⟩ | ⟨stored, unseen, files⟩
    · -- the answer was `duplicate`: the call left no trace
      have isDup : a = .duplicate := by
        rw [dup] at look
        exact (eraseTier_eq_duplicate a).mp look.symm
      subst isDup
      have same : folds ((t, .duplicate) :: rest) = folds rest := by simp [folds]
      refine ⟨same ▸ L.serial, same ▸ L.filed, same ▸ L.fresh, same ▸ L.distinct, ?_⟩
      intro u hu
      rw [same]
      rcases List.mem_cons.mp hu with hu | hu
      · cases hu
        exact ⟨d, hd, .inl on⟩
      · exact L.repeats u hu
    · -- the call stored its row and folded it
      have notDup : a ≠ .duplicate := by
        rintro rfl
        exact stored ((eraseTier_eq_duplicate a').mp look)
      have grown : folds ((t, a) :: rest) = (t, a) :: folds rest := by simp [folds, notDup]
      refine ⟨?_, ?_, ?_, ?_, ?_⟩
      · rw [grown]
        exact ⟨mid, first, L.serial⟩
      · intro d
        rw [grown, L.filed d, files d]
        simp [or_assoc]
      · intro e he d hd
        rw [grown] at he
        rcases List.mem_cons.mp he with rfl | he
        · exact unseen d hd
        · exact fun on => L.fresh e he d hd ((files d).mpr (.inl on))
      · rw [grown]
        refine List.pairwise_cons.mpr ⟨fun e he d hd hd' => ?_, L.distinct⟩
        exact L.fresh e he d hd' ((files d).mpr (.inr hd))
      · intro u hu
        rcases List.mem_cons.mp hu with hu | hu
        · cases hu
          exact absurd rfl notDup
        · obtain ⟨d, hd, on⟩ := L.repeats u hu
          refine ⟨d, hd, ?_⟩
          rw [grown]
          rcases on with on | ⟨e, he, hed⟩
          · rcases (files d).mp on with on | first
            · exact .inl on
            · exact .inr ⟨(t, a), List.mem_cons_self, first⟩
          · exact .inr ⟨e, List.mem_cons_of_mem _ he, hed⟩

/-- The concurrent run `c` from `db₀` is the execution of `order`, one call after another:
each committed call that is not a repeat runs once with its own clock reading, the calls
that failed are absent, no delivery is folded twice, and every repeat answers a delivery
that was on file or is folded by a call of `order`. -/
structure OneByOne [DecidableEq T] (db₀ : RiskDb C P) (c : RiskConf T C P)
    (order : List (T × IngestResponse)) : Prop where
  once : (order.map Prod.fst).Nodup
  members : ∀ t a, (t, a) ∈ order ↔ c.txn t = .committed a ∧ a ≠ .duplicate
  serial : Serial eraseTier (programs engine hashtext call clock) db₀ order c.db
  repeats : ∀ t, c.txn t = .committed .duplicate → ∃ d, (call t).delivery = some d ∧
    (Filed db₀ d ∨ ∃ e ∈ order, (call e.1).delivery = some d)
  fresh : ∀ e ∈ order, ∀ d, (call e.1).delivery = some d → ¬Filed db₀ d
  answers : ∀ d, ¬Filed db₀ d → (∃ t a, (call t).delivery = some d ∧ c.txn t = .committed a) →
    ∃! t, (call t).delivery = some d ∧ ∃ a, c.txn t = .committed a ∧ a ≠ .duplicate

theorem pairwise_unique {α : Type} {R : α → α → Prop} {xs : List α} (h : xs.Pairwise R)
    {x y : α} (hx : x ∈ xs) (hy : y ∈ xs) (no : ¬R x y) (no' : ¬R y x) : x = y := by
  by_contra ne
  rcases List.pairwise_iff_get.mp h with get
  obtain ⟨i, rfl⟩ := List.get_of_mem hx
  obtain ⟨j, rfl⟩ := List.get_of_mem hy
  rcases lt_trichotomy i j with lt | eq | gt
  · exact no (get i j lt)
  · exact ne (by rw [eq])
  · exact no' (get j i gt)

/-- Concurrent ingest is serializable and folds every delivery exactly once. -/
theorem ingest_serializable [DecidableEq T] {db₀ : RiskDb C P} {c : RiskConf T C P}
    (h : Reachable (programs engine hashtext call clock) db₀ c) :
    ∃ order, OneByOne engine hashtext call clock db₀ c order := by
  have inv : Inv (guardOf hashtext) eraseTier (programs engine hashtext call clock) db₀ c :=
    h.inv fun t => program_covered engine hashtext (clock t) (call t)
  have L := Serial.ledger engine hashtext call clock inv.serial
  have members : ∀ t a, (t, a) ∈ folds c.log ↔ c.txn t = .committed a ∧ a ≠ .duplicate := by
    intro t a
    simp [folds, inv.logged t a]
  have repeats : ∀ t, c.txn t = .committed .duplicate → ∃ d, (call t).delivery = some d ∧
      (Filed db₀ d ∨ ∃ e ∈ folds c.log, (call e.1).delivery = some d) :=
    fun t ht => L.repeats t ((inv.logged t _).mpr ht)
  refine ⟨folds c.log, ?_, members, L.serial, repeats, L.fresh, ?_⟩
  · exact inv.once.sublist (List.filter_sublist.map _)
  · rintro d off ⟨t, a, ht, committed⟩
    -- some call of the order folds the delivery: `t` itself, or the one `t` repeats
    obtain ⟨e, he, hd⟩ : ∃ e ∈ folds c.log, (call e.1).delivery = some d := by
      by_cases dup : a = .duplicate
      · subst dup
        obtain ⟨d', hd', on⟩ := repeats t committed
        obtain rfl : d = d' := Option.some.inj (ht.symm.trans hd')
        exact on.resolve_left off
      · exact ⟨(t, a), (members t a).mpr ⟨committed, dup⟩, ht⟩
    have stored := (members e.1 e.2).mp he
    refine ⟨e.1, ⟨hd, e.2, stored⟩, ?_⟩
    rintro u ⟨hu, b, hb⟩
    have mem : (u, b) ∈ folds c.log := (members u b).mpr hb
    exact congrArg Prod.fst (pairwise_unique L.distinct mem he
      (fun r => r d hu hd) (fun r => r d hd hu))

theorem duplicate_filed [DecidableEq T] {db₀ : RiskDb C P} {c : RiskConf T C P}
    (h : Reachable (programs engine hashtext call clock) db₀ c) {t : T}
    (answered : c.txn t = .committed .duplicate) :
    ∃ d, (call t).delivery = some d ∧ Filed c.db d := by
  have inv : Inv (guardOf hashtext) eraseTier (programs engine hashtext call clock) db₀ c :=
    h.inv fun t => program_covered engine hashtext (clock t) (call t)
  have L := Serial.ledger engine hashtext call clock inv.serial
  obtain ⟨d, hd, on⟩ := L.repeats t ((inv.logged t _).mpr answered)
  exact ⟨d, hd, (L.filed d).mpr on⟩

/-! ### Two deliveries of one record -/

def quietEngine : FraudEngine Unit Unit where
  processConversation _ _ _ := .ok ⟨[], ()⟩
  processSignals _ _ _ _ _ := .ok ⟨0, .none, [], [], ()⟩

def plainRecord : SignalRecord :=
  { modelVersion := "m", ts := "2026-01-01T00:00:00Z", eventId := "e", sessionId := "s"
    srcProfileId := "p", verdict := "allow", category := "other" }

/-- Both deliveries of one record commit: one stores it, the other is the repeat. -/
theorem ingest_serializable_redelivery :
    ∃ c : RiskConf Bool Unit Unit,
      (∃ order, OneByOne quietEngine (fun _ => 0) (fun _ => .record plainRecord)
        (fun _ => ⟨0, 0⟩) RiskDb.empty c order) ∧
      c.txn true = .committed (.noFold .none) ∧ c.txn false = .committed .duplicate := by
  let prog : Bool → Ingest Unit Unit :=
    programs quietEngine (fun _ => 0) (fun _ => .record plainRecord) (fun _ => ⟨0, 0⟩)
  have mapped : toConversationEvent plainRecord = .ok ⟨plainRecord.ts, "p", [], [], none, none⟩ :=
    rfl
  let stored : RiskDb Unit Unit := storedDb RiskDb.empty plainRecord ⟨[], ()⟩
  have onceRan : (prog true).run RiskDb.empty = .ok (.noFold .none, stored) :=
    ingestRecord_stored quietEngine (fun _ => 0) ⟨0, 0⟩ mapped rfl rfl
  have twiceRan : (prog false).run stored = .ok (.duplicate, stored) :=
    ingestRecord_duplicate quietEngine (fun _ => 0) ⟨0, 0⟩ mapped
      (by simp [stored, storedDb_signalEvents, onFile, signalEventRow])
  have quiet : Quiet (⟨RiskDb.empty, fun _ => .idle, []⟩ : RiskConf Bool Unit Unit) := by
    rintro t held w rest ⟨⟩
  have first := Reachable.start.solo quiet rfl onceRan
  have second := first.solo (quiet.committed _ _ _ _) rfl twiceRan
  exact ⟨_, ingest_serializable _ _ _ _ second, rfl, rfl⟩

end DostReview.Risk
