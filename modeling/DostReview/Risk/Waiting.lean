import Mathlib.Data.Set.Finite.List
import DostReview.Library.Deadlock
import DostReview.Risk.OnFile

/-!
# Lock keys that collide

Concurrent ingests that wait for each other's locks. A record takes its session's lock and then
its sender's, an outcome one lock only; but the locks are hashes of the keys, and where hashes
of session keys and of profile keys collide around a circle of records, the sessions are not
before the profiles any more.
-/
namespace DostReview.Risk

open Locking Engine

variable {C P T : Type} (hashtext : String → ℤ) (call : T → RiskCall)

abbrev sessionLock (r : SignalRecord) : ℤ := hashtext ("session:" ++ r.sessionId)

abbrev profileLock (r : SignalRecord) : ℤ := hashtext ("profile:" ++ r.srcProfileId)

/-- A record that the mapper reads: the others fail before they take a lock. -/
def RiskCall.IsRecord (c : RiskCall) (r : SignalRecord) : Prop :=
  c = .record r ∧ ∃ event, toConversationEvent r = .ok event

/-- The profile lock of one record is the session lock of another, and not its own. -/
def Collides (t u : T) : Prop :=
  ∃ r r', (call t).IsRecord r ∧ (call u).IsRecord r' ∧
    profileLock hashtext r = sessionLock hashtext r' ∧
    profileLock hashtext r ≠ sessionLock hashtext r

/-- From this state of its conversation the engine derives a tag for the record's sender. -/
def Derives (engine : FraudEngine C P) (prev : Option C) (r : SignalRecord) : Prop :=
  ∃ event out, toConversationEvent r = .ok event ∧
    engine.processConversation r.sessionId prev [event] = .ok out ∧
    senderSignals r out.derivedTags ≠ []

/-- A collision that the engine can come to: it folds the record of the first call. -/
def Meets (engine : FraudEngine C P) (t u : T) : Prop :=
  Collides hashtext call t u ∧ ∃ r, (call t).IsRecord r ∧ ∃ prev, Derives engine prev r

/-! ### What the programs ask for -/

/-- A first lock, a lock that is held already, or under its session lock the profile lock of a
record that the engine folds. -/
def Asks (engine : FraudEngine C P) (c : RiskCall) (held : List ℤ) (k : ℤ) : Prop :=
  held = [] ∨ k ∈ held ∨ ∃ r prev, c.IsRecord r ∧ Derives engine prev r ∧
    held = [sessionLock hashtext r] ∧ k = profileLock hashtext r

theorem fold_requests {engine : FraudEngine C P} {clock : DateTime} {profileId : String}
    {signals outcomes : List SignalItem} {session reason : Option String} {evidence : JsonObject}
    {ask : List ℤ → ℤ → Prop} {held : List ℤ} (asks : ask held (hashtext ("profile:" ++ profileId))) :
    Requests ask held
      (fold engine hashtext clock profileId signals outcomes session reason evidence) := by
  refine .lock asks (.stmt fun prev => ?_)
  split
  · exact .throw _
  · refine .stmt fun _ => ?_
    split
    · exact .stmt fun _ => .ret _
    · exact .ret _

theorem program_requests (engine : FraudEngine C P) (clock : DateTime) (c : RiskCall) :
    Requests (Asks hashtext engine c) [] (c.program engine hashtext clock) := by
  have tier : ∀ held p, Requests (Asks hashtext engine c) held (answerTier p : Ingest C P) :=
    fun _ _ => .stmt fun _ => .ret _
  cases c with
  | outcome o =>
    -- the nested lock of the fold is the one that is held
    exact .lock (.inl rfl) (.stmt fun _ =>
      fold_requests hashtext (.inr (.inl List.mem_cons_self)))
  | record r =>
    change Requests _ _ (ingestRecord engine hashtext clock r)
    unfold ingestRecord
    split
    · exact .throw _
    next event mapped =>
      refine .lock (.inl rfl) (.stmt fun rows => ?_)
      dsimp only
      split
      · exact .ret _
      · refine .stmt fun conv => ?_
        split
        · exact .throw _
        next out answered =>
          refine .stmt fun _ => ?_
          split
          · exact tier _ _
          · split
            · exact tier _ _
            next derived =>
              exact fold_requests hashtext (.inr (.inr ⟨r, conv, ⟨rfl, event, mapped⟩,
                ⟨event, out, mapped, answered, derived⟩, rfl, rfl⟩))

/-! ### Deadlocks come from collisions -/

theorem Requests.asks {engine : FraudEngine C P} {c : RiskCall} {held : List ℤ} {k : ℤ}
    {next : Ingest C P} (h : Requests (Asks hashtext engine c) held (.lock k next)) :
    Asks hashtext engine c held k := by
  cases h with
  | lock asks _ => exact asks

variable [DecidableEq T] {hashtext call}

/-- A call that waits while it is waited for is a record at its profile lock. -/
theorem meets_of_waits {engine : FraudEngine C P} {clock : T → DateTime} {db : RiskDb C P}
    {c : RiskConf T C P} (h : Reachable (programs engine hashtext call clock) db c) {t u : T}
    (waits : WaitsFor c t u) (before : ∃ v, WaitsFor c v t) (after : ∃ v, WaitsFor c u v) :
    Meets hashtext call engine t u := by
  have requests : ∀ t, Requests (Asks hashtext engine (call t)) []
      (programs engine hashtext call clock t) :=
    fun t => program_requests hashtext engine (clock t) (call t)
  -- who is waited for holds a lock, and who waits asks for one that it does not hold
  have record : ∀ {t held w k next}, c.txn t = .live held w (.lock k next) → k ∉ held → held ≠ [] →
      ∃ r prev, (call t).IsRecord r ∧ Derives engine prev r ∧ held = [sessionLock hashtext r] ∧
        k = profileLock hashtext r := by
    intro t held w k next live unheld some_
    have asks := Requests.asks hashtext (h.requests requests live)
    exact (asks.resolve_left some_).resolve_left unheld
  obtain ⟨held, w, k, next, held', w', rest', live, unheld, live', holds⟩ := waits
  obtain ⟨v, _, _, k₀, _, held₀, _, _, -, -, live₀, holds₀⟩ := before
  obtain ⟨v', held₁, _, k₁, _, _, _, _, live₁, unheld₁, -, -⟩ := after
  cases live.symm.trans live₀
  cases live'.symm.trans live₁
  obtain ⟨r, prev, isRecord, derives, rfl, rfl⟩ := record live unheld (List.ne_nil_of_mem holds₀)
  obtain ⟨r', -, isRecord', -, rfl, rfl⟩ := record live' unheld₁ (List.ne_nil_of_mem holds)
  exact ⟨⟨r, r', isRecord, isRecord', List.mem_singleton.mp holds,
    fun same => unheld (List.mem_singleton.mpr same)⟩, r, isRecord, prev, derives⟩

theorem meeting_of_deadlock {engine : FraudEngine C P} {clock : T → DateTime} {db : RiskDb C P}
    {c : RiskConf T C P} (h : Reachable (programs engine hashtext call clock) db c)
    (deadlocked : Deadlocked c) : ∃ t, Relation.TransGen (Meets hashtext call engine) t t := by
  obtain ⟨t, cycle⟩ := deadlocked
  exact ⟨t, cycle_of_inner (fun _ _ => meets_of_waits h) cycle⟩

/-! ### Collisions come to deadlocks -/

/-- On this database the record is new, and the engine derives a tag for its sender. -/
def FoldsOn (engine : FraudEngine C P) (db : RiskDb C P) (r : SignalRecord) : Prop :=
  onFile (db (.signalEvents r.sessionId)) r.eventId = false ∧
    Derives engine (db (.conversationRisk r.sessionId)) r

/-- The call has taken its session's lock, written under it only, and waits at its profile's. -/
def WaitsAt (hashtext : String → ℤ) (call : T → RiskCall) (c : RiskConf T C P) (t : T) (k : ℤ) :
    Prop :=
  ∃ r w next, (call t).IsRecord r ∧ sessionLock hashtext r = k ∧
    c.txn t = .live [k] w (.lock (profileLock hashtext r) next) ∧
    ∀ l, w l ≠ none → guardOf hashtext l = k

/-- A new record of a derived tag runs up to its profile's lock. -/
theorem Reachable.advance {engine : FraudEngine C P} {clock : T → DateTime} {db : RiskDb C P}
    {c : RiskConf T C P} (h : Reachable (programs engine hashtext call clock) db c) {t : T}
    (idle : c.txn t = .idle) {r : SignalRecord} (isRecord : (call t).IsRecord r)
    (folds : FoldsOn engine c.db r) (free : LockFree c t (sessionLock hashtext r))
    (rows : ∀ l, guardOf hashtext l = sessionLock hashtext r → RowFree c t l) :
    ∃ w next, Reachable (programs engine hashtext call clock) db
      (c.set t (.live [sessionLock hashtext r] w (.lock (profileLock hashtext r) next))) ∧
      ∀ l, w l ≠ none → guardOf hashtext l = sessionLock hashtext r := by
  obtain ⟨new, event, out, mapped, answered, derived⟩ := folds
  have begun := Reachable.next h (.start t idle)
  have program : programs engine hashtext call clock t =
      ingestRecord engine hashtext (clock t) r := by
    simp only [programs, isRecord.1, RiskCall.program]
  rw [program, ingestRecord, mapped] at begun
  -- the session's lock, the new row, the state before it and the state after it
  have filed := (begun.grant free).exec (rows _ rfl)
  simp only [view_none, new, Bool.not_false, Bool.not_true, Bool.false_eq_true, if_false] at filed
  have read := Reachable.exec filed (rows _ rfl)
  have unread : view c.db (Written.write (fun _ => none) (.signalEvents r.sessionId)
      (some (c.db (.signalEvents r.sessionId) ++ [signalEventRow r])))
        (.conversationRisk r.sessionId) = c.db (.conversationRisk r.sessionId) := by
    simp [view, Written.write]
  rw [unread] at read
  simp only [answered] at read
  have stored := Reachable.exec read (rows _ rfl)
  have some_ : out.derivedTags ≠ [] := by
    intro none_
    simp [senderSignals, derivedToSignals, none_] at derived
  simp only [if_neg some_, if_neg derived] at stored
  refine ⟨_, _, stored, fun l wrote => ?_⟩
  by_contra other
  have unwritten : ∀ l', guardOf hashtext l' = sessionLock hashtext r → l ≠ l' := by
    rintro l' own rfl
    exact other own
  simp [Written.write, Function.update_of_ne (unwritten (.signalEvents r.sessionId) rfl),
    Function.update_of_ne (unwritten (.conversationRisk r.sessionId) rfl)] at wrote

theorem RiskCall.IsRecord.unique {c : RiskCall} {r r' : SignalRecord} (h : c.IsRecord r)
    (h' : c.IsRecord r') : r = r' :=
  RiskCall.record.inj (h.1.symm.trans h'.1)

/-- Nothing is committed, the holder of each lock waits at its profile's, and no other call has
begun. -/
structure Parked (hashtext : String → ℤ) (call : T → RiskCall) (db : RiskDb C P) (holder : ℤ → T)
    (locks : List ℤ) (c : RiskConf T C P) : Prop where
  unchanged : c.db = db
  idle : ∀ t, t ∉ locks.map holder → c.txn t = .idle
  waits : ∀ k ∈ locks, WaitsAt hashtext call c (holder k) k

section

variable {db : RiskDb C P} {holder : ℤ → T} {locks : List ℤ} {c : RiskConf T C P}

/-- A call under way holds one of the locks, and has written under it only. -/
theorem Parked.under (h : Parked hashtext call db holder locks c) {u : T} {held : List ℤ}
    {w : Written (Cell C P)} {rest : Ingest C P}
    (live : c.txn u = .live held w rest) :
    ∃ k ∈ locks, held = [k] ∧ ∀ l, w l ≠ none → guardOf hashtext l = k := by
  by_cases busy : u ∈ locks.map holder
  · obtain ⟨k, member, rfl⟩ := List.mem_map.mp busy
    obtain ⟨_, _, _, -, -, live', own⟩ := h.waits k member
    cases live.symm.trans live'
    exact ⟨k, member, rfl, own⟩
  · cases live.symm.trans (h.idle u busy)

/-- A new record with a session lock of its own joins them. -/
theorem Parked.park {engine : FraudEngine C P} {clock : T → DateTime}
    (h : Parked hashtext call db holder locks c)
    (reached : Reachable (programs engine hashtext call clock) db c) {r : SignalRecord}
    (new : sessionLock hashtext r ∉ locks)
    (fresh : holder (sessionLock hashtext r) ∉ locks.map holder)
    (isRecord : (call (holder (sessionLock hashtext r))).IsRecord r) (folds : FoldsOn engine db r) :
    ∃ c', Reachable (programs engine hashtext call clock) db c' ∧
      Parked hashtext call db holder (sessionLock hashtext r :: locks) c' := by
  have free : LockFree c (holder (sessionLock hashtext r)) (sessionLock hashtext r) := by
    intro u _ held w rest live holds
    obtain ⟨k, member, rfl, -⟩ := h.under live
    exact new (List.mem_singleton.mp holds ▸ member)
  have rows : ∀ l, guardOf hashtext l = sessionLock hashtext r →
      RowFree c (holder (sessionLock hashtext r)) l := by
    intro l own u _ held w rest live
    by_contra wrote
    obtain ⟨k, member, -, guarded⟩ := h.under live
    exact new (own ▸ guarded l wrote ▸ member)
  obtain ⟨w, next, advanced, own⟩ :=
    Reachable.advance reached (h.idle _ fresh) isRecord (h.unchanged ▸ folds) free rows
  refine ⟨_, advanced, h.unchanged, fun t out => ?_, fun k' member => ?_⟩
  · rw [List.map_cons, List.mem_cons, not_or] at out
    rw [c.set_txn_of_ne _ out.1]
    exact h.idle t out.2
  · rcases List.mem_cons.mp member with rfl | member
    · exact ⟨r, w, next, isRecord, rfl, c.set_txn_self _ _, own⟩
    · obtain ⟨r', w', next', isRecord', same, live, own'⟩ := h.waits k' member
      refine ⟨r', w', next', isRecord', same, ?_, own'⟩
      have other : holder k' ≠ holder (sessionLock hashtext r) :=
        ne_of_mem_of_not_mem (List.mem_map_of_mem member) fresh
      rwa [c.set_txn_of_ne _ other]

omit [DecidableEq T] in
/-- It waits for the holder of its profile's lock, if that is one of them and not its own. -/
theorem Parked.waitsFor (h : Parked hashtext call db holder locks c) {k : ℤ} (member : k ∈ locks)
    {r : SignalRecord} (isRecord : (call (holder k)).IsRecord r)
    (taken : profileLock hashtext r ∈ locks)
    (other : profileLock hashtext r ≠ sessionLock hashtext r) :
    WaitsFor c (holder k) (holder (profileLock hashtext r)) := by
  obtain ⟨r', w, rest, isRecord', rfl, live, -⟩ := h.waits k member
  cases isRecord'.unique isRecord
  obtain ⟨_, w', rest', -, -, live', -⟩ := h.waits _ taken
  exact ⟨_, w, _, rest, _, w', _, live, mt List.mem_singleton.mp other, live',
    List.mem_singleton_self _⟩

end

/-- Records with different session locks can all be brought to their profile locks. -/
theorem exists_parked (engine : FraudEngine C P) (clock : T → DateTime) (db : RiskDb C P)
    (holder : ℤ → T) (locks : List ℤ) (distinct : locks.Nodup)
    (records : ∀ k ∈ locks, ∃ r, (call (holder k)).IsRecord r ∧ sessionLock hashtext r = k ∧
      FoldsOn engine db r) :
    ∃ c : RiskConf T C P, Reachable (programs engine hashtext call clock) db c ∧
      Parked hashtext call db holder locks c := by
  induction locks with
  | nil => exact ⟨_, .start, rfl, fun _ _ => rfl, nofun⟩
  | cons k locks ih =>
    obtain ⟨new, distinct⟩ := List.nodup_cons.mp distinct
    obtain ⟨c, reached, parked⟩ :=
      ih distinct fun k' member => records k' (List.mem_cons_of_mem _ member)
    obtain ⟨r, isRecord, rfl, folds⟩ := records _ List.mem_cons_self
    -- one call is one record, with one session lock
    have fresh : holder (sessionLock hashtext r) ∉ locks.map holder := by
      intro member
      obtain ⟨k, member, same⟩ := List.mem_map.mp member
      obtain ⟨r', isRecord', rfl, -⟩ := records k (List.mem_cons_of_mem _ member)
      rw [isRecord.unique (same ▸ isRecord')] at new
      exact new member
    exact parked.park reached new fresh isRecord folds

/-- Records with different session locks, the profile lock of each being the session lock of
another. -/
structure Ring (hashtext : String → ℤ) (call : T → RiskCall) (locks : List ℤ) (holder : ℤ → T)
    (record : ℤ → SignalRecord) : Prop where
  some_ : locks ≠ []
  distinct : locks.Nodup
  isRecord : ∀ k ∈ locks, (call (holder k)).IsRecord (record k)
  takes : ∀ k ∈ locks, sessionLock hashtext (record k) = k
  asks : ∀ k ∈ locks, profileLock hashtext (record k) ∈ locks ∧ profileLock hashtext (record k) ≠ k

omit [DecidableEq T] in
/-- A circle of collisions contains a ring. -/
theorem exists_ring {Q : SignalRecord → Prop} {t : T}
    (circle : Relation.TransGen
      (fun t u => Collides hashtext call t u ∧ ∃ r, (call t).IsRecord r ∧ Q r) t t) :
    ∃ locks holder record, Ring hashtext call locks holder record ∧
      ∀ k ∈ locks, Q (record k) := by
  obtain ⟨walk, start, next⟩ := exists_walk circle
  have recorded : ∀ u ∈ walk, ∃ r, (call u).IsRecord r ∧ Q r := by
    intro u visited
    obtain ⟨_, -, -, r, isRecord, known⟩ := next u visited
    exact ⟨r, isRecord, known⟩
  have : Nonempty T := ⟨t⟩
  have : Nonempty SignalRecord := ⟨(recorded t start).choose⟩
  choose! record isRecord known using recorded
  -- one call of the walk for each session lock that is taken on it
  have takes : ∀ k, k ∈ (walk.map fun u => sessionLock hashtext (record u)).dedup ↔
      ∃ u ∈ walk, sessionLock hashtext (record u) = k := by simp
  generalize distinct : (walk.map fun u => sessionLock hashtext (record u)).dedup = locks at takes
  choose! holder visited lock using fun k member => (takes k).mp member
  refine ⟨locks, holder, fun k => record (holder k), ⟨?_, distinct ▸ List.nodup_dedup _,
    fun k member => isRecord _ (visited k member), lock, fun k member => ?_⟩,
    fun k member => known _ (visited k member)⟩
  · exact List.ne_nil_of_mem ((takes _).mpr ⟨t, start, rfl⟩)
  · obtain ⟨u, later, ⟨r, r', isRecord₁, isRecord₂, same, other⟩, -⟩ := next _ (visited k member)
    cases isRecord₁.unique (isRecord _ (visited k member))
    rw [lock k member] at other
    refine ⟨(takes _).mpr ⟨u, later, ?_⟩, other⟩
    rw [(isRecord u later).unique isRecord₂, same]

theorem deadlock_of_ring {engine : FraudEngine C P} (clock : T → DateTime) {db : RiskDb C P}
    {locks : List ℤ} {holder : ℤ → T} {record : ℤ → SignalRecord}
    (ring : Ring hashtext call locks holder record)
    (folds : ∀ k ∈ locks, FoldsOn engine db (record k)) :
    ∃ c : RiskConf T C P, Reachable (programs engine hashtext call clock) db c ∧ Deadlocked c := by
  obtain ⟨c, reached, parked⟩ := exists_parked engine clock db holder locks ring.distinct
    fun k member => ⟨_, ring.isRecord k member, ring.takes k member, folds k member⟩
  refine ⟨c, reached, ?_⟩
  -- each of them waits for another one
  have follows : ∀ k : {k // k ∈ locks}, ∃ k' : {k // k ∈ locks},
      WaitsFor c (holder k) (holder k') := by
    rintro ⟨k, member⟩
    obtain ⟨taken, other⟩ := ring.asks k member
    have apart : profileLock hashtext (record k) ≠ sessionLock hashtext (record k) := by
      rwa [ring.takes k member]
    exact ⟨⟨_, taken⟩, parked.waitsFor member (ring.isRecord k member) taken apart⟩
  obtain ⟨first, start⟩ := List.exists_mem_of_ne_nil locks ring.some_
  have : Nonempty {k // k ∈ locks} := ⟨⟨first, start⟩⟩
  have : Finite {k // k ∈ locks} := List.finite_toSet locks
  obtain ⟨k, cycle⟩ := exists_cycle follows
  exact ⟨holder k, Relation.TransGen.lift (fun k : {k // k ∈ locks} => holder k)
    (fun _ _ waits => waits) _ _ cycle⟩

theorem deadlock_of_collision {engine : FraudEngine C P} (clock : T → DateTime) {db : RiskDb C P}
    (folds : ∀ t r, (call t).IsRecord r → FoldsOn engine db r) {t : T}
    (circle : Relation.TransGen (Collides hashtext call) t t) :
    ∃ c : RiskConf T C P, Reachable (programs engine hashtext call clock) db c ∧ Deadlocked c := by
  have folded : ∀ t u, Collides hashtext call t u → Collides hashtext call t u ∧
      ∃ r, (call t).IsRecord r ∧ FoldsOn engine db r := by
    intro t u collides
    obtain ⟨r, -, isRecord, -⟩ := id collides
    exact ⟨collides, r, isRecord, folds t r isRecord⟩
  obtain ⟨locks, holder, record, ring, known⟩ :=
    exists_ring (Relation.TransGen.mono folded _ _ circle)
  exact deadlock_of_ring clock ring known

/-- The conversations are in the states from which the engine folds the records of the ring. -/
theorem deadlock_of_meeting {engine : FraudEngine C P} (clock : T → DateTime) {t : T}
    (circle : Relation.TransGen (Meets hashtext call engine) t t) :
    ∃ (db : RiskDb C P) (c : RiskConf T C P),
      Reachable (programs engine hashtext call clock) db c ∧ Deadlocked c := by
  obtain ⟨locks, holder, record, ring, derived⟩ :=
    exists_ring (Q := fun r => ∃ prev, Derives engine prev r) circle
  choose! prev derives using derived
  -- sessions of the ring have different locks, so each can be given its state
  let db : RiskDb C P
    | .conversationRisk session => prev (hashtext ("session:" ++ session))
    | l => RiskDb.empty l
  refine ⟨db, deadlock_of_ring clock ring fun k member => ⟨rfl, ?_⟩⟩
  have stored : db (.conversationRisk (record k).sessionId) = prev k :=
    congrArg prev (ring.takes k member)
  rw [stored]
  exact derives k member

/-- An engine that derives a tag of the sender from every event. -/
def taggingEngine : FraudEngine Unit Unit where
  processConversation _ _ events :=
    .ok ⟨events.map fun e => ⟨"channel_shift_early", e.senderId, e.ts⟩, ()⟩
  processSignals _ _ _ _ _ := .ok ⟨0, .none, [], [], ()⟩

theorem taggingEngine_folds {c : RiskCall} {r : SignalRecord} (isRecord : c.IsRecord r) :
    FoldsOn taggingEngine RiskDb.empty r := by
  obtain ⟨-, event, mapped⟩ := isRecord
  obtain ⟨stage, -, rfl⟩ := toConversationEvent_ok mapped
  exact ⟨rfl, _, _, mapped, rfl, by simp [senderSignals, derivedToSignals, eventOf]⟩

/-! ### When ingests cannot deadlock -/

/-- Concurrent ingests cannot deadlock exactly if no circle of records exists in which the
profile lock of each is the session lock of the next, and not its own. -/
theorem deadlock_free_iff (hashtext : String → ℤ) (call : T → RiskCall) :
    (∀ (C P : Type) (engine : FraudEngine C P) (clock : T → DateTime) (db : RiskDb C P)
        (c : RiskConf T C P), Reachable (programs engine hashtext call clock) db c →
      ¬Deadlocked c) ↔
    ¬∃ t, Relation.TransGen (Collides hashtext call) t t := by
  constructor
  · rintro free ⟨t, circle⟩
    obtain ⟨c, reached, deadlocked⟩ :=
      deadlock_of_collision (fun _ => ⟨0, 0⟩) (fun _ _ => taggingEngine_folds) circle
    exact free Unit Unit taggingEngine _ _ c reached deadlocked
  · rintro apart C P engine clock db c reached deadlocked
    obtain ⟨t, circle⟩ := meeting_of_deadlock reached deadlocked
    exact apart ⟨t, Relation.TransGen.mono (fun _ _ meets => meets.1) _ _ circle⟩

/-- With one engine, the vendored one for example, concurrent ingests cannot deadlock exactly if
there is no such circle of records each of which the engine folds from some state of its
conversation. -/
theorem engine_deadlock_free_iff (engine : FraudEngine C P) (hashtext : String → ℤ)
    (call : T → RiskCall) :
    (∀ (clock : T → DateTime) (db : RiskDb C P) (c : RiskConf T C P),
        Reachable (programs engine hashtext call clock) db c → ¬Deadlocked c) ↔
      ¬∃ t, Relation.TransGen (Meets hashtext call engine) t t := by
  constructor
  · rintro free ⟨t, circle⟩
    obtain ⟨db, c, reached, deadlocked⟩ := deadlock_of_meeting (fun _ => ⟨0, 0⟩) circle
    exact free _ db c reached deadlocked
  · rintro apart clock db c reached deadlocked
    exact apart (meeting_of_deadlock reached deadlocked)

/-- Two blocked messages, each sent in a session of its own by the profile whose lock is the
other one's session lock. -/
def crossing : Bool → RiskCall
  | true => .record blockedRecord
  | false => .record { blockedRecord with
      sessionId := "t", srcProfileId := "q", dstProfileId := some "p" }

def crossedHash (key : String) : ℤ := if key ∈ ["session:s", "profile:q"] then 1 else 2

theorem crossing_folds : ∀ t r, (crossing t).IsRecord r →
    FoldsOn (vendored rationalOps epochDates) RiskDb.empty r := by
  rintro (_ | _) r ⟨⟨⟩, -⟩
  · exact ⟨rfl, _, _, rfl, rfl, by decide +kernel⟩
  · exact ⟨rfl, _, _, rfl, rfl, by decide +kernel⟩

/-- The two ingests can come to wait for each other. -/
theorem crossing_deadlock :
    ¬∀ c, Reachable (programs (vendored rationalOps epochDates) crossedHash crossing
        fun _ => ⟨0, 0⟩) RiskDb.empty c → ¬Deadlocked c := by
  intro free
  have circle : Relation.TransGen (Collides crossedHash crossing) true true :=
    .head (b := false) ⟨_, _, ⟨rfl, _, rfl⟩, ⟨rfl, _, rfl⟩, by decide, by decide⟩
      (.single ⟨_, _, ⟨rfl, _, rfl⟩, ⟨rfl, _, rfl⟩, by decide, by decide⟩)
  obtain ⟨c, reached, deadlocked⟩ := deadlock_of_collision (fun _ => ⟨0, 0⟩) crossing_folds circle
  exact free c reached deadlocked

end DostReview.Risk
