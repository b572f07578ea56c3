import DostReview.Risk.Queue

/-!
# One OPEN review per profile

The service calls over `review_queue` row by row, beside runs of the migration and people who
decide on reviews. A row inserted by a call is uncommitted until its transaction commits, and
the partial unique index refuses a second OPEN row of a profile, committed or not.
-/
namespace DostReview.Risk

open Locking

/-! ### The queue under concurrent calls -/

/-- Where a call stands: `queued` are the rows of `review_queue` it has inserted so far. -/
inductive CallStatus (C P : Type)
  | idle
  | live (held : List ℤ) (written : Written (Cell C P)) (queued : List QueueEntry)
      (rest : Ingest C P)
  | committed (answer : IngestResponse)
  | aborted

/-- The committed queue, and the other tables in `db`. -/
structure Desk (T C P : Type) where
  db : RiskDb C P
  queue : List QueueEntry
  txn : T → CallStatus C P

/-- The rows of one location, as the programs see them. -/
def rowsOf (p : String) (rows : List QueueEntry) : List QueueRow :=
  (rows.filter fun q => q.profileId = p).map (·.toQueueRow)

/-- A row as the INSERT completes it with the column defaults. -/
def entered (id : ℕ) (now : ℤ) (row : QueueRow) : QueueEntry :=
  { toQueueRow := row
    id := id
    decision := none
    decidedBy := none
    decidedAt := none
    createdAt := now
    expiresAt := now + days 7 }

/-- `UniqueViolation` on `uq_review_queue_open`. -/
def violates (rows : List QueueEntry) (row : QueueRow) : Bool :=
  row.status = .opened ∧ rows.any (·.openFor row.profileId)

/-- What a decision may do to a row: move it out of OPEN and say so. -/
def Decides (q q' : QueueEntry) : Prop :=
  q' = q ∨ q.status = .opened ∧ ∃ status decision decidedBy decidedAt, status ≠ .opened ∧
    q' = { q with
      status := status, decision := decision, decidedBy := decidedBy, decidedAt := decidedAt }

namespace Desk

variable {T C P : Type}

def LockFree (d : Desk T C P) (t : T) (k : ℤ) : Prop :=
  ∀ u, u ≠ t → ∀ held w queued rest, d.txn u = .live held w queued rest → k ∉ held

def RowFree (d : Desk T C P) (t : T) (l : Loc) : Prop :=
  ∀ u, u ≠ t → ∀ held w queued rest, d.txn u = .live held w queued rest → w l = none

/-- No other call has an uncommitted OPEN row of the profile, for whose end the index would wait. -/
def IndexFree (d : Desk T C P) (t : T) (p : String) : Prop :=
  ∀ u, u ≠ t → ∀ held w queued rest, d.txn u = .live held w queued rest →
    ∀ q ∈ queued, q.openFor p = false

variable [DecidableEq T]

def set (d : Desk T C P) (t : T) (x : CallStatus C P) : Desk T C P :=
  { d with txn := Function.update d.txn t x }

/-- One statement of one call, a decision or a run of the migration. -/
inductive Step (prog : T → Ingest C P) : Desk T C P → Desk T C P → Prop
  | start {d : Desk T C P} (t : T) : d.txn t = .idle →
      Step prog d (d.set t (.live [] (fun _ => none) [] (prog t)))
  | lock {d : Desk T C P} (t : T) {held w queued k next} :
      d.txn t = .live held w queued (.lock k next) → d.LockFree t k →
      Step prog d (d.set t (.live (k :: held) w queued next))
  | exec {d : Desk T C P} (t : T) {held w queued l write next} :
      d.txn t = .live held w queued (.stmt l write next) → (∀ p, l ≠ .reviewQueue p) →
      (write (view d.db w l) ≠ none → d.RowFree t l) →
      Step prog d (d.set t (.live held (Written.write w l (write (view d.db w l))) queued
        (next (view d.db w l))))
  -- the INSERT of `enqueue_review`, which the index admits
  | insert {d : Desk T C P} (t : T) {held w queued p write next} (row : QueueRow) (id : ℕ)
      (now : ℤ) : d.txn t = .live held w queued (.stmt (.reviewQueue p) write next) →
      d.IndexFree t p →
      write (rowsOf p (d.queue ++ queued)) = some (rowsOf p (d.queue ++ queued) ++ [row]) →
      (∀ q ∈ d.queue ++ queued, q.id ≠ id) → violates (d.queue ++ queued) row = false →
      Step prog d (d.set t (.live held w (queued ++ [entered id now row])
        (next (rowsOf p (d.queue ++ queued)))))
  -- `ON CONFLICT DO NOTHING`
  | skip {d : Desk T C P} (t : T) {held w queued p write next} :
      d.txn t = .live held w queued (.stmt (.reviewQueue p) write next) → d.IndexFree t p →
      write (rowsOf p (d.queue ++ queued)) = none →
      Step prog d (d.set t (.live held w queued (next (rowsOf p (d.queue ++ queued)))))
  -- the index refuses the row, and the transaction is rolled back
  | refuse {d : Desk T C P} (t : T) {held w queued p write next} (row : QueueRow) :
      d.txn t = .live held w queued (.stmt (.reviewQueue p) write next) → d.IndexFree t p →
      write (rowsOf p (d.queue ++ queued)) = some (rowsOf p (d.queue ++ queued) ++ [row]) →
      violates (d.queue ++ queued) row = true → Step prog d (d.set t .aborted)
  | commit {d : Desk T C P} (t : T) {held w queued a} : d.txn t = .live held w queued (.ret a) →
      Step prog d ⟨view d.db w, d.queue ++ queued, Function.update d.txn t (.committed a)⟩
  | abort {d : Desk T C P} (t : T) {held w queued rest} : d.txn t = .live held w queued rest →
      Step prog d (d.set t .aborted)
  | migrate {d : Desk T C P} {after : List QueueEntry} : migration005 d.queue = some after →
      Step prog d { d with queue := after }
  | decide {d : Desk T C P} {after : List QueueEntry} : List.Forall₂ Decides d.queue after →
      Step prog d { d with queue := after }

/-- The states of the runs from tables `db` and a queue, before any call has begun. -/
inductive Reachable (prog : T → Ingest C P) (db : RiskDb C P) (queue : List QueueEntry) :
    Desk T C P → Prop
  | start : Reachable prog db queue ⟨db, queue, fun _ => .idle⟩
  | next {d d' : Desk T C P} : Reachable prog db queue d → Step prog d d' →
      Reachable prog db queue d'

end Desk

/-! ### Rows and the index -/

@[simp] theorem openFor_entered (id : ℕ) (now : ℤ) (row : QueueRow) (p : String) :
    (entered id now row).openFor p = decide (row.profileId = p ∧ row.status = .opened) := rfl

/-- What `hasOpen` sees is an OPEN row of the profile. -/
theorem hasOpen_rowsOf (p : String) (rows : List QueueEntry) :
    hasOpen (rowsOf p rows) = rows.any (·.openFor p) := by
  simp [hasOpen, rowsOf, List.any_map, List.any_filter, QueueEntry.openFor, Function.comp_def]

theorem countP_of_none_open {p : String} {rows : List QueueEntry}
    (none : ∀ q ∈ rows, q.openFor p = false) : rows.countP (·.openFor p) = 0 :=
  List.countP_eq_zero.mpr fun q hq => by simp [none q hq]

theorem SingleOpen.of_le {rows rows' : List QueueEntry} (single : SingleOpen rows)
    (fewer : ∀ p, rows'.countP (·.openFor p) ≤ rows.countP (·.openFor p)) : SingleOpen rows' :=
  fun p => (fewer p).trans (single p)

/-- An insertion that the index admits. -/
theorem SingleOpen.insert {rows : List QueueEntry} (single : SingleOpen rows) {row : QueueRow}
    (admitted : violates rows row = false) (id : ℕ) (now : ℤ) :
    SingleOpen (rows ++ [entered id now row]) := by
  intro p
  rw [List.countP_append, List.countP_singleton, openFor_entered]
  by_cases here : row.profileId = p ∧ row.status = .opened
  · obtain ⟨rfl, opened⟩ := here
    -- the index has found no OPEN row of the profile
    have none : ∀ q ∈ rows, q.openFor row.profileId = false := by
      simpa [violates, opened] using admitted
    rw [countP_of_none_open none]
    simp [opened]
  · have old := single p
    simpa [here] using old

/-- Decisions open nothing. -/
theorem countP_decided {rows after : List QueueEntry} (decided : List.Forall₂ Decides rows after)
    (p : String) : after.countP (·.openFor p) ≤ rows.countP (·.openFor p) := by
  induction decided with
  | nil => exact Nat.le_refl _
  | @cons q q' rows after one _ ih =>
    rw [List.countP_cons, List.countP_cons]
    have fewer : (if q'.openFor p = true then 1 else 0) ≤ if q.openFor p = true then 1 else 0 := by
      rcases one with rfl | ⟨-, status, decision, decidedBy, decidedAt, closed, rfl⟩
      · exact Nat.le_refl _
      · simp [QueueEntry.openFor, closed]
    exact Nat.add_le_add ih fewer

/-! ### What the programs enqueue -/

/-- The profile that a call folds. -/
def RiskCall.target : RiskCall → String
  | .record r => r.srcProfileId
  | .outcome o => o.profileId

variable {C P : Type}

/-- Only the answer of a fold below `QUEUE_AT` comes without a statement on the queue, which
is about the profile `p` and the last one. -/
inductive Enqueues (p : String) : Ingest C P → Prop
  | ret {a : IngestResponse} :
      (∀ tier score repeated, a = .folded tier score repeated → score < queueAt) →
      Enqueues p (.ret a)
  | throw (e : IngestError) : Enqueues p (.throw e)
  | lock {k next} : Enqueues p next → Enqueues p (.lock k next)
  | stmt {l write next} : (∀ q, l ≠ .reviewQueue q) → (∀ v, Enqueues p (next v)) →
      Enqueues p (.stmt l write next)
  | enqueue {row : QueueRow} {tier : RiskTier} {repeated : List String} : row.profileId = p →
      row.status = .opened →
      Enqueues p (enqueueReview row (.ret (.folded tier row.riskScore repeated)))

variable (engine : FraudEngine C P) (hashtext : String → ℤ)

theorem fold_enqueues (clock : DateTime) (p : String) (signals outcomes : List SignalItem)
    (session reason : Option String) (evidence : JsonObject) :
    Enqueues p (fold engine hashtext clock p signals outcomes session reason evidence) := by
  refine .lock (.stmt (by simp) fun prev => ?_)
  split
  · exact .throw _
  next out _ =>
    refine .stmt (by simp) fun _ => ?_
    split
    · have mine : (queueRow p session reason evidence out).profileId = p := rfl
      exact .enqueue mine rfl
    next low =>
      apply Enqueues.ret
      rintro tier score repeated ⟨⟩
      exact not_le.mp low

theorem answerTier_enqueues (p q : String) : Enqueues p (answerTier q : Ingest C P) :=
  .stmt (by simp) fun _ => .ret (by simp)

theorem program_enqueues (clock : DateTime) (call : RiskCall) :
    Enqueues call.target (call.program engine hashtext clock) := by
  cases call with
  | record r =>
    simp only [RiskCall.program, RiskCall.target, ingestRecord]
    split
    · exact .throw _
    next event _ =>
      refine .lock (.stmt (by simp) fun rows => ?_)
      dsimp only
      split
      · exact .ret (by simp)
      · refine .stmt (by simp) fun conv => ?_
        split
        · exact .throw _
        next out _ =>
          refine .stmt (by simp) fun _ => ?_
          split
          · exact answerTier_enqueues _ _
          · split
            · exact answerTier_enqueues _ _
            · exact fold_enqueues engine hashtext clock _ _ _ _ _ _
  | outcome o =>
    refine .lock (.stmt (by simp [outcomeRow]) fun _ => ?_)
    exact fold_enqueues engine hashtext clock _ _ _ _ _ _

/-! ### The invariant -/

/-- A call under way: the rows it has inserted are about profiles it has locked, and with the
committed ones they satisfy the index. -/
structure InFlight (p : String) (queue : List QueueEntry) (held : List ℤ) (queued : List QueueEntry)
    (rest : Ingest C P) : Prop where
  covered : Covered (guardOf hashtext) eraseTier held rest
  enqueues : Enqueues p rest ∨ ∃ a, rest = .ret a
  own : ∀ q ∈ queued, guardOf hashtext (.reviewQueue q.profileId) ∈ held
  single : SingleOpen (queue ++ queued)

structure Desk.Ok {T : Type} (call : T → RiskCall) (d : Desk T C P) : Prop where
  single : SingleOpen d.queue
  live : ∀ t held w queued rest, d.txn t = .live held w queued rest →
    InFlight hashtext (call t).target d.queue held queued rest
  apart : ∀ t u, t ≠ u → ∀ held w queued rest held' w' queued' rest',
    d.txn t = .live held w queued rest → d.txn u = .live held' w' queued' rest' →
    List.Disjoint held held'

namespace InFlight

variable {hashtext} {p : String} {queue queued : List QueueEntry} {held : List ℤ}

theorem enqueues_lock {k : ℤ} {next : Ingest C P}
    (h : InFlight hashtext p queue held queued (.lock k next)) : Enqueues p next := by
  rcases h.enqueues with enqueues | ⟨a, eq⟩
  · cases enqueues with
    | lock inner => exact inner
  · cases eq

theorem enqueues_exec {l : Loc} {write : Cell C P l → Option (Cell C P l)}
    {next : Cell C P l → Ingest C P}
    (h : InFlight hashtext p queue held queued (.stmt l write next))
    (other : ∀ q, l ≠ .reviewQueue q) (v : Cell C P l) : Enqueues p (next v) := by
  rcases h.enqueues with enqueues | ⟨a, eq⟩
  · cases enqueues with
    | stmt _ rest => exact rest v
    | enqueue => exact absurd rfl (other _)
  · cases eq

theorem lock {k : ℤ} {next : Ingest C P}
    (h : InFlight hashtext p queue held queued (.lock k next)) :
    InFlight hashtext p queue (k :: held) queued next where
  covered := by
    cases h.covered with
    | lock inner => exact inner
  enqueues := .inl h.enqueues_lock
  own q hq := List.mem_cons_of_mem _ (h.own q hq)
  single := h.single

theorem covered_next {l : Loc} {write : Cell C P l → Option (Cell C P l)}
    {next : Cell C P l → Ingest C P}
    (h : InFlight hashtext p queue held queued (.stmt l write next)) (v : Cell C P l) :
    Covered (guardOf hashtext) eraseTier held (next v) := by
  cases h.covered with
  | stmt _ rest => exact rest v
  | peek b _ answers =>
    obtain ⟨a, eq, -⟩ := answers v
    exact eq ▸ .ret a

theorem exec {l : Loc} {write : Cell C P l → Option (Cell C P l)}
    {next : Cell C P l → Ingest C P}
    (h : InFlight hashtext p queue held queued (.stmt l write next))
    (other : ∀ q, l ≠ .reviewQueue q) (v : Cell C P l) :
    InFlight hashtext p queue held queued (next v) where
  covered := h.covered_next v
  enqueues := .inl (h.enqueues_exec other v)
  own := h.own
  single := h.single

/-- A statement on the queue is `enqueue_review`, for the profile of the call, followed by the
answer of the fold and made under the lock of the profile. -/
theorem enqueueReview {q : String} {write : List QueueRow → Option (List QueueRow)}
    {next : List QueueRow → Ingest C P}
    (h : InFlight hashtext p queue held queued (.stmt (.reviewQueue q) write next)) :
    guardOf hashtext (.reviewQueue p) ∈ held ∧ ∃ row : QueueRow, row.profileId = p ∧ q = p ∧
      row.status = .opened ∧
      (write = fun rows => if hasOpen rows then none else some (rows ++ [row])) ∧
      ∃ a, next = fun _ => .ret a := by
  rcases h.enqueues with enqueues | ⟨a, eq⟩
  · cases enqueues with
    | stmt other _ => exact absurd rfl (other q)
    | @enqueue row tier repeated here opened =>
      -- it writes, so it is not a statement that the guard leaves unlocked
      refine ⟨?_, row, here, here, opened, rfl, _, rfl⟩
      cases h.covered with
      | stmt guarded _ => exact here ▸ guarded
      | peek b silent _ =>
        have reads := silent []
        simp [hasOpen] at reads
  · cases eq

/-- After the insertion, or without one, the call sees one OPEN row of its profile. -/
theorem insert {q : String} {write : List QueueRow → Option (List QueueRow)}
    {next : List QueueRow → Ingest C P} {row : QueueRow}
    (h : InFlight hashtext p queue held queued (.stmt (.reviewQueue q) write next))
    (writes : write (rowsOf q (queue ++ queued)) = some (rowsOf q (queue ++ queued) ++ [row]))
    (admitted : violates (queue ++ queued) row = false) (id : ℕ) (now : ℤ) (v : List QueueRow) :
    InFlight hashtext p queue held (queued ++ [entered id now row]) (next v) ∧
    (queue ++ (queued ++ [entered id now row])).countP (·.openFor p) = 1 := by
  obtain ⟨locked, row', here, rfl, opened, rfl, a, rfl⟩ := h.enqueueReview
  obtain rfl : row' = row := by
    dsimp only at writes
    split at writes
    · cases writes
    · simpa using writes
  have single : SingleOpen (queue ++ (queued ++ [entered id now row'])) := by
    rw [← List.append_assoc]
    exact h.single.insert admitted id now
  refine ⟨⟨.ret a, .inr ⟨a, rfl⟩, ?_, single⟩, ?_⟩
  · intro q hq
    rcases List.mem_append.mp hq with old | new
    · exact h.own q old
    · have profile : q.profileId = row'.profileId := by rw [List.mem_singleton.mp new]; rfl
      rw [profile, here]
      exact locked
  · apply Nat.le_antisymm (single _)
    apply List.countP_pos_iff.mpr
    exact ⟨entered id now row', by simp, by simp [here, opened]⟩

theorem skip {q : String} {write : List QueueRow → Option (List QueueRow)}
    {next : List QueueRow → Ingest C P}
    (h : InFlight hashtext p queue held queued (.stmt (.reviewQueue q) write next))
    (writes : write (rowsOf q (queue ++ queued)) = none) (v : List QueueRow) :
    InFlight hashtext p queue held queued (next v) ∧
    (queue ++ queued).countP (·.openFor p) = 1 := by
  obtain ⟨-, row, -, rfl, -, rfl, a, rfl⟩ := h.enqueueReview
  refine ⟨⟨.ret a, .inr ⟨a, rfl⟩, h.own, h.single⟩, ?_⟩
  have present : hasOpen (rowsOf q (queue ++ queued)) = true := by
    by_contra absent
    simp [absent] at writes
  rw [hasOpen_rowsOf] at present
  obtain ⟨r, hr, opened⟩ := List.any_eq_true.mp present
  apply Nat.le_antisymm (h.single q)
  exact List.countP_pos_iff.mpr ⟨r, hr, opened⟩

theorem requeue {after : List QueueEntry} {rest : Ingest C P}
    (h : InFlight hashtext p queue held queued rest)
    (fewer : ∀ r, after.countP (·.openFor r) ≤ queue.countP (·.openFor r)) :
    InFlight hashtext p after held queued rest where
  covered := h.covered
  enqueues := h.enqueues
  own := h.own
  single := by
    apply h.single.of_le
    intro r
    rw [List.countP_append, List.countP_append]
    exact Nat.add_le_add_right (fewer r) _

/-- A commit adds rows of profiles that this call has not locked. -/
theorem committed {held' : List ℤ} {queued' : List QueueEntry} {p' : String}
    {rest rest' : Ingest C P} (h : InFlight hashtext p queue held queued rest)
    (other : InFlight hashtext p' queue held' queued' rest') (apart : List.Disjoint held held') :
    InFlight hashtext p (queue ++ queued') held queued rest where
  covered := h.covered
  enqueues := h.enqueues
  own := h.own
  single := by
    intro r
    have mine := h.single r
    have theirs := other.single r
    simp only [List.countP_append] at mine theirs ⊢
    by_cases some : ∃ q ∈ queued, q.openFor r = true
    · obtain ⟨q, hq, opened⟩ := some
      have profile := (QueueEntry.openFor_iff.mp opened).1
      have locked : guardOf hashtext (.reviewQueue r) ∈ held := profile ▸ h.own q hq
      have none : queued'.countP (·.openFor r) = 0 := by
        apply countP_of_none_open
        intro q' hq'
        by_contra opened'
        have profile' := (QueueEntry.openFor_iff.mp (Bool.eq_true_of_not_eq_false opened')).1
        exact apart locked (profile' ▸ other.own q' hq')
      omega
    · have none : queued.countP (·.openFor r) = 0 := by
        apply countP_of_none_open
        intro q hq
        exact Bool.eq_false_of_not_eq_true fun opened => some ⟨q, hq, opened⟩
      omega

end InFlight

namespace Desk

variable {T : Type} {call : T → RiskCall} {d d' : Desk T C P} {hashtext}

/-- The statement on the queue can be carried out: the index has no uncommitted row to wait for
and refuses no row. -/
structure Accepts (d : Desk T C P) (t : T) (queued : List QueueEntry) (p : String)
    (write : List QueueRow → Option (List QueueRow)) : Prop where
  free : d.IndexFree t p
  carried : write (rowsOf p (d.queue ++ queued)) = none ∨
    ∃ row, write (rowsOf p (d.queue ++ queued)) = some (rowsOf p (d.queue ++ queued) ++ [row]) ∧
      violates (d.queue ++ queued) row = false

theorem Ok.indexFree (h : d.Ok hashtext call) {t : T} {held w queued rest p}
    (ht : d.txn t = .live held w queued rest) (locked : guardOf hashtext (.reviewQueue p) ∈ held) :
    d.IndexFree t p := by
  intro u other held' w' queued' rest' hu q hq
  by_contra opened
  have profile := (QueueEntry.openFor_iff.mp (Bool.eq_true_of_not_eq_false opened)).1
  have own := (h.live u held' w' queued' rest' hu).own q hq
  exact h.apart t u other.symm _ _ _ _ _ _ _ _ ht hu locked (profile ▸ own)

theorem Ok.accepts (h : d.Ok hashtext call) {t : T} {held w queued p write next}
    (ht : d.txn t = .live held w queued (.stmt (.reviewQueue p) write next)) :
    d.Accepts t queued p write := by
  obtain ⟨locked, row, here, rfl, opened, rfl, -⟩ := (h.live t _ _ _ _ ht).enqueueReview
  refine ⟨h.indexFree ht locked, ?_⟩
  cases present : hasOpen (rowsOf (call t).target (d.queue ++ queued)) with
  | true => exact .inl (by simp)
  | false =>
    refine .inr ⟨row, by simp, ?_⟩
    rw [hasOpen_rowsOf, ← here] at present
    simp only [violates, present, Bool.false_eq_true, and_false, decide_false]

/-- A statement of others on the committed rows that opens none. -/
theorem Ok.requeue (h : d.Ok hashtext call) {after : List QueueEntry}
    (fewer : ∀ r, after.countP (·.openFor r) ≤ d.queue.countP (·.openFor r)) :
    ({ d with queue := after } : Desk T C P).Ok hashtext call where
  single := h.single.of_le fewer
  live t held w queued rest ht := (h.live t held w queued rest ht).requeue fewer
  apart := h.apart

variable [DecidableEq T]

theorem Ok.set (h : d.Ok hashtext call) (t : T) (x : CallStatus C P)
    (live : ∀ held w queued rest, x = .live held w queued rest →
      InFlight hashtext (call t).target d.queue held queued rest)
    (apart : ∀ held w queued rest, x = .live held w queued rest → ∀ u, u ≠ t →
      ∀ held' w' queued' rest', d.txn u = .live held' w' queued' rest' → List.Disjoint held held') :
    (d.set t x).Ok hashtext call where
  single := h.single
  live u held w queued rest hu := by
    by_cases eq : u = t
    · subst eq
      exact live held w queued rest (by simpa [Desk.set] using hu)
    · exact h.live u held w queued rest (by simpa [Desk.set, eq] using hu)
  apart u v huv held w queued rest held' w' queued' rest' hu hv := by
    -- at most one of the two is the call that has moved
    by_cases eu : u = t
    · subst eu
      have ev : v ≠ u := fun e => huv e.symm
      exact apart held w queued rest (by simpa [Desk.set] using hu) v ev held' w' queued' rest'
        (by simpa [Desk.set, ev] using hv)
    · by_cases ev : v = t
      · subst ev
        exact List.disjoint_symm (apart held' w' queued' rest' (by simpa [Desk.set] using hv) u eu
          held w queued rest (by simpa [Desk.set, eu] using hu))
      · exact h.apart u v huv held w queued rest held' w' queued' rest'
          (by simpa [Desk.set, eu] using hu) (by simpa [Desk.set, ev] using hv)

/-- A step of a live call that keeps its locks. -/
theorem Ok.move (h : d.Ok hashtext call) {t : T} {held w queued rest w' queued' rest'}
    (ht : d.txn t = .live held w queued rest)
    (next : InFlight hashtext (call t).target d.queue held queued' rest') :
    (d.set t (.live held w' queued' rest')).Ok hashtext call := by
  apply h.set
  · rintro _ _ _ _ ⟨⟩
    exact next
  · rintro _ _ _ _ ⟨⟩ u other _ _ _ _ hu
    exact h.apart t u other.symm _ _ _ _ _ _ _ _ ht hu

theorem Ok.commit (h : d.Ok hashtext call) {t : T} {held w queued a}
    (ht : d.txn t = .live held w queued (.ret a)) :
    (⟨view d.db w, d.queue ++ queued, Function.update d.txn t (.committed a)⟩ : Desk T C P).Ok
      hashtext call where
  single := (h.live t held w queued _ ht).single
  live u held' w' queued' rest' hu := by
    have other : u ≠ t := by
      rintro rfl
      simp at hu
    have hu : d.txn u = .live held' w' queued' rest' := by simpa [other] using hu
    have apart := h.apart u t other _ _ _ _ _ _ _ _ hu ht
    exact (h.live u _ _ _ _ hu).committed (h.live t _ _ _ _ ht) apart
  apart u v huv held₁ w₁ queued₁ rest₁ held₂ w₂ queued₂ rest₂ hu hv := by
    have eu : u ≠ t := by rintro rfl; simp at hu
    have ev : v ≠ t := by rintro rfl; simp at hv
    exact h.apart u v huv _ _ _ _ _ _ _ _ (by simpa [eu] using hu) (by simpa [ev] using hv)

variable {clock : T → DateTime}

theorem Ok.begin (h : d.Ok hashtext call) (t : T) :
    (d.set t (.live [] (fun _ => none) [] (programs engine hashtext call clock t))).Ok
      hashtext call := by
  apply h.set
  · rintro _ _ _ _ ⟨⟩
    refine ⟨program_covered engine hashtext (clock t) (call t), .inl ?_, by simp, ?_⟩
    · exact program_enqueues engine hashtext (clock t) (call t)
    · rw [List.append_nil]
      exact h.single
  · rintro _ _ _ _ ⟨⟩ u _ held' _ _ _ _
    exact List.disjoint_nil_left held'

theorem Ok.step (h : d.Ok hashtext call) (s : Step (programs engine hashtext call clock) d d') :
    d'.Ok hashtext call := by
  cases s with
  | start t => exact h.begin engine t
  -- the new lock is held by no other call
  | @lock t held w queued k next ht free =>
    apply h.set
    · rintro _ _ _ _ ⟨⟩
      exact (h.live t _ _ _ _ ht).lock
    · rintro _ _ _ _ ⟨⟩ u other held' w' queued' rest' hu
      exact List.disjoint_cons_left.mpr ⟨free u other held' w' queued' rest' hu,
        h.apart t u other.symm _ _ _ _ _ _ _ _ ht hu⟩
  | exec t ht other _ => exact h.move ht ((h.live t _ _ _ _ ht).exec other _)
  | insert t row id now ht _ writes _ admitted =>
    exact h.move ht ((h.live t _ _ _ _ ht).insert writes admitted id now _).1
  | skip t ht _ writes => exact h.move ht ((h.live t _ _ _ _ ht).skip writes _).1
  | refuse t => exact h.set t _ (by rintro _ _ _ _ ⟨⟩) (by rintro _ _ _ _ ⟨⟩)
  | commit t ht => exact h.commit ht
  | abort t => exact h.set t _ (by rintro _ _ _ _ ⟨⟩) (by rintro _ _ _ _ ⟨⟩)
  | migrate ran =>
    -- with one OPEN row per profile the migration finds nothing to do
    have same : collapse d.queue = d.queue := collapse_of_single h.single
    rw [migration005_eq (same.symm ▸ h.single), same] at ran
    cases ran
    exact h
  | decide decided => exact h.requeue (countP_decided decided)

theorem Ok.reachable {db : RiskDb C P} {queue : List QueueEntry} (single : SingleOpen queue)
    (reached : Reachable (programs engine hashtext call clock) db queue d) :
    d.Ok hashtext call := by
  induction reached with
  | start =>
    refine ⟨single, ?_, ?_⟩
    · rintro t held w queued rest ⟨⟩
    · rintro t u _ held w queued rest held' w' queued' rest' ⟨⟩
  | next _ s ih => exact ih.step engine s

/-- A fold from `QUEUE_AT` on comes to its answer by its statement on the queue, after which the
call sees one OPEN row of its profile. -/
theorem Ok.folded (h : d.Ok hashtext call) (s : Step (programs engine hashtext call clock) d d')
    {t : T} {held w queued tier score repeated}
    (before : ∀ held w queued a, d.txn t ≠ .live held w queued (.ret a))
    (after : d'.txn t = .live held w queued (.ret (.folded tier score repeated)))
    (high : queueAt ≤ score) : (d'.queue ++ queued).countP (·.openFor (call t).target) = 1 := by
  -- such an answer is only reached through the statement on the queue
  have low : ¬Enqueues (call t).target (.ret (.folded tier score repeated) : Ingest C P) := by
    intro enqueues
    cases enqueues with
    | ret below => exact absurd (below _ _ _ rfl) (not_lt.mpr high)
  -- a step of another call leaves this one where it is
  have moved : ∀ u x, d' = d.set u x → u = t ∧
      x = .live held w queued (.ret (.folded tier score repeated)) := by
    rintro u x rfl
    by_cases eq : t = u
    · subst eq
      exact ⟨rfl, by simpa [Desk.set] using after⟩
    · exact absurd (by simpa [Desk.set, eq] using after) (before _ _ _ _)
  cases s with
  | start u =>
    obtain ⟨rfl, eq⟩ := moved _ _ rfl
    have last : programs engine hashtext call clock u = _ := (CallStatus.live.inj eq).2.2.2
    exact absurd (last ▸ program_enqueues engine hashtext (clock u) (call u)) low
  | lock u ht free =>
    obtain ⟨rfl, eq⟩ := moved _ _ rfl
    have last := (CallStatus.live.inj eq).2.2.2
    exact absurd (last ▸ (h.live u _ _ _ _ ht).enqueues_lock) low
  | exec u ht other _ =>
    obtain ⟨rfl, eq⟩ := moved _ _ rfl
    have last := (CallStatus.live.inj eq).2.2.2
    exact absurd (last ▸ (h.live u _ _ _ _ ht).enqueues_exec other _) low
  | insert u row id now ht _ writes _ admitted =>
    obtain ⟨rfl, eq⟩ := moved _ _ rfl
    have rows := (CallStatus.live.inj eq).2.2.1
    exact rows ▸ ((h.live u _ _ _ _ ht).insert writes admitted id now []).2
  | skip u ht _ writes =>
    obtain ⟨rfl, eq⟩ := moved _ _ rfl
    have rows := (CallStatus.live.inj eq).2.2.1
    exact rows ▸ ((h.live u _ _ _ _ ht).skip writes []).2
  | refuse u =>
    obtain ⟨-, ⟨⟩⟩ := moved _ _ rfl
  | commit u ht =>
    by_cases eq : t = u
    · subst eq
      simp at after
    · exact absurd (by simpa [eq] using after) (before _ _ _ _)
  | abort u =>
    obtain ⟨-, ⟨⟩⟩ := moved _ _ rfl
  | migrate => exact absurd after (before _ _ _ _)
  | decide => exact absurd after (before _ _ _ _)

/-! ### The runs -/

/-- The queue in a state of a run of `prog`: at most one OPEN row per profile, committed or in the
view of a call, and every fold from `QUEUE_AT` on leaves one. -/
structure KeepsOne (prog : T → Ingest C P) (target : T → String) (d : Desk T C P) : Prop where
  single : SingleOpen d.queue
  views : ∀ t held w queued rest, d.txn t = .live held w queued rest →
    SingleOpen (d.queue ++ queued)
  migrated : migration005 d.queue = some d.queue
  accepts : ∀ t held w queued p write next,
    d.txn t = .live held w queued (.stmt (.reviewQueue p) write next) → d.Accepts t queued p write
  folded : ∀ d' t held w queued tier score repeated, Step prog d d' →
    (∀ held w queued a, d.txn t ≠ .live held w queued (.ret a)) →
    d'.txn t = .live held w queued (.ret (.folded tier score repeated)) → queueAt ≤ score →
    (d'.queue ++ queued).countP (·.openFor (target t)) = 1

theorem Ok.keepsOne (h : d.Ok hashtext call) :
    d.KeepsOne (programs engine hashtext call clock) fun t => (call t).target where
  single := h.single
  views t held w queued rest ht := (h.live t held w queued rest ht).single
  migrated := by
    have same : collapse d.queue = d.queue := collapse_of_single h.single
    rw [migration005_eq (same.symm ▸ h.single), same]
  accepts _ _ _ _ _ _ _ ht := h.accepts ht
  folded _ _ _ _ _ _ _ _ s before after high := h.folded engine s before after high

end Desk

/-- Migration 005 leaves the newest OPEN row of each profile and expires the others, whatever it
finds; from there on no run has two OPEN rows of a profile, no call fails or waits for its
statement on the queue, and each fold from `QUEUE_AT` on leaves exactly one OPEN row. -/
theorem single_open_review {T : Type} [DecidableEq T] (call : T → RiskCall) (clock : T → DateTime)
    {prior : List QueueEntry} (ids : (prior.map (·.id)).Nodup) :
    migration005 prior = some (collapse prior) ∧ Collapsed prior (collapse prior) ∧
    migration005 (collapse prior) = some (collapse prior) ∧
    ∀ (db : RiskDb C P) (d : Desk T C P),
      Desk.Reachable (programs engine hashtext call clock) db (collapse prior) d →
      d.KeepsOne (programs engine hashtext call clock) fun t => (call t).target := by
  have single : SingleOpen (collapse prior) := single_collapse ids
  have again : collapse (collapse prior) = collapse prior := collapse_of_single single
  refine ⟨migration005_eq single, collapsed_collapse ids, ?_, ?_⟩
  · rw [migration005_eq (again.symm ▸ single), again]
  · intro db d reached
    exact (Desk.Ok.reachable engine single reached).keepsOne engine

/-! ### A fold over a queue with duplicates -/

/-- Every fold scores `QUEUE_AT`. -/
def loudEngine : FraudEngine Unit Unit where
  processConversation _ _ _ := .ok ⟨[], ()⟩
  processSignals _ _ _ _ _ := .ok ⟨60, .high, [], [], ()⟩

def openReview (id : ℕ) (createdAt : ℤ) (status : QueueStatus) : QueueEntry :=
  { profileId := "p", sessionId := none, reason := "score", riskScore := 60, evidence := []
    status := status, id := id, decision := none, decidedBy := none, decidedAt := none
    createdAt := createdAt, expiresAt := createdAt + days 7 }

/-- Two OPEN rows of one instant, and an older and a closed one. -/
def duplicated : List QueueEntry :=
  [openReview 1 5 .opened, openReview 2 5 .opened, openReview 3 4 .opened, openReview 4 6 .decided]

example : (collapse duplicated).map (fun q => (q.id, q.status)) =
    [(1, .expired), (2, .opened), (3, .expired), (4, .decided)] := by decide

def fraudReport : RiskCall := .outcome ⟨"q", "confirmed_fraud", none, none, []⟩

/-- A report about a profile with no OPEN row: its fold leaves one. -/
theorem single_open_review_report : ∃ d : Desk Unit Unit Unit,
    d.KeepsOne (programs loudEngine (fun _ => 0) (fun _ => fraudReport) fun _ => ⟨0, 0⟩)
      (fun _ => "q") ∧
    ∃ held w row answer, d.txn () = .live held w [row] (.ret answer) ∧ row.openFor "q" = true := by
  let prog : Unit → Ingest Unit Unit :=
    programs loudEngine (fun _ => 0) (fun _ => fraudReport) fun _ => ⟨0, 0⟩
  have alone (u : Unit) (other : u ≠ ()) : False := other rfl
  have ids : (duplicated.map (·.id)).Nodup := by decide
  have begun : Desk.Reachable prog RiskDb.empty (collapse duplicated) _ :=
    .next .start (.start () rfl)
  have locked := begun.next (.lock () rfl fun u other => (alone u other).elim)
  have reported := locked.next
    (.exec () rfl (by simp [outcomeRow]) fun _ u other => (alone u other).elim)
  have relocked := reported.next (.lock () rfl fun u other => (alone u other).elim)
  have read := relocked.next (.exec () rfl (by simp) fun _ u other => (alone u other).elim)
  have stored := read.next (.exec () rfl (by simp) fun _ u other => (alone u other).elim)
  have queued := stored.next
    (.insert () _ 9 7 rfl (fun u other => (alone u other).elim) rfl (by decide) rfl)
  obtain ⟨-, -, -, keeps⟩ :=
    single_open_review loudEngine (fun _ => 0) (fun _ : Unit => fraudReport) (fun _ => ⟨0, 0⟩) ids
  exact ⟨_, keeps _ _ queued, _, _, _, _, rfl, rfl⟩

end DostReview.Risk
