import Mathlib.Logic.Function.Basic
import Mathlib.Data.List.Nodup

/-!
# Transactions under advisory locks

Programs whose statements each read and perhaps write one location of a shared store,
taking exclusive locks on the way. A lock is held until its transaction ends. Writes
stay invisible to the other transactions until the commit, and each statement sees the
latest committed store overlaid with the transaction's own writes (READ COMMITTED).

`serializable`: if every statement that can write, and every read whose value can
matter, is made under the lock that guards its location, then every interleaving of any
number of such programs leaves the store and the answers of running the committed ones
one after another in the order in which they committed.
-/
namespace Locking

/-- A transaction body over locks `K`, locations `L` with values `V`, errors `ε` and
answers `α`. A statement sees the value at its location and may replace it. -/
inductive Prog (K L : Type) (V : L → Type) (ε α : Type) : Type
  | ret (answer : α)
  | throw (error : ε)
  | lock (key : K) (next : Prog K L V ε α)
  | stmt (loc : L) (write : V loc → Option (V loc)) (next : V loc → Prog K L V ε α)

abbrev Store {L : Type} (V : L → Type) := ∀ l, V l

abbrev Written {L : Type} (V : L → Type) := ∀ l, Option (V l)

variable {K L T : Type} {V : L → Type} {ε α β : Type}

/-- The store as a transaction with uncommitted writes `w` sees it. -/
def view (db : Store V) (w : Written V) : Store V := fun l => (w l).getD (db l)

variable [DecidableEq L]

def Store.write (db : Store V) (l : L) : Option (V l) → Store V
  | none => db
  | some v => Function.update db l v

def Written.write (w : Written V) (l : L) : Option (V l) → Written V
  | none => w
  | some v => Function.update w l (some v)

/-- Run a program alone on a store. -/
def Prog.run : Prog K L V ε α → Store V → Except ε (α × Store V)
  | .ret a, db => .ok (a, db)
  | .throw e, _ => .error e
  | .lock _ next, db => next.run db
  | .stmt l write next, db => (next (db l)).run (Store.write db l (write (db l)))

omit [DecidableEq L] in
@[simp] theorem view_none (db : Store V) : view db (fun _ => none) = db := rfl

/-- A statement executed through the overlay is the statement executed on the view. -/
theorem view_write (db : Store V) (w : Written V) (l : L) (ov : Option (V l)) :
    view db (Written.write w l ov) = Store.write (view db w) l ov := by
  cases ov with
  | none => rfl
  | some v =>
    funext l'
    by_cases h : l' = l
    · subst h
      simp [view, Written.write, Store.write]
    · simp [view, Written.write, Store.write, h]

/-! ### The concurrent machine -/

/-- Where a transaction stands: `live` holds the locks taken, the uncommitted writes and
the statements still to run. -/
inductive Status (K L : Type) (V : L → Type) (ε α : Type) : Type
  | idle
  | live (held : List K) (written : Written V) (rest : Prog K L V ε α)
  | committed (answer : α)
  | aborted

/-- The committed store, every transaction's status, and the committed transactions with
their answers in commit order. -/
structure Conf (K L T : Type) (V : L → Type) (ε α : Type) where
  db : Store V
  txn : T → Status K L V ε α
  log : List (T × α)

variable [DecidableEq T]

def Conf.set (c : Conf K L T V ε α) (t : T) (x : Status K L V ε α) : Conf K L T V ε α :=
  { c with txn := Function.update c.txn t x }

def LockFree (c : Conf K L T V ε α) (t : T) (k : K) : Prop :=
  ∀ u, u ≠ t → ∀ held w rest, c.txn u = .live held w rest → k ∉ held

/-- Nobody else has an uncommitted write on the location: its row is not locked. -/
def RowFree (c : Conf K L T V ε α) (t : T) (l : L) : Prop :=
  ∀ u, u ≠ t → ∀ held w rest, c.txn u = .live held w rest → w l = none

/-- One step of one transaction. A lock request waits for the holder, a writing statement
waits for an uncommitted write on its location, and a live transaction may be rolled
back at any point (its own error, a failed statement, a deadlock, a crash). -/
inductive Step (prog : T → Prog K L V ε α) : Conf K L T V ε α → Conf K L T V ε α → Prop
  | start {c : Conf K L T V ε α} (t : T) : c.txn t = .idle →
      Step prog c (c.set t (.live [] (fun _ => none) (prog t)))
  | lock {c : Conf K L T V ε α} (t : T) {held w k next} :
      c.txn t = .live held w (.lock k next) → LockFree c t k →
      Step prog c (c.set t (.live (k :: held) w next))
  | exec {c : Conf K L T V ε α} (t : T) {held w l write next} :
      c.txn t = .live held w (.stmt l write next) →
      (write (view c.db w l) ≠ none → RowFree c t l) →
      Step prog c (c.set t (.live held (Written.write w l (write (view c.db w l)))
        (next (view c.db w l))))
  | commit {c : Conf K L T V ε α} (t : T) {held w a} : c.txn t = .live held w (.ret a) →
      Step prog c ⟨view c.db w, Function.update c.txn t (.committed a), c.log ++ [(t, a)]⟩
  | abort {c : Conf K L T V ε α} (t : T) {held w rest} : c.txn t = .live held w rest →
      Step prog c (c.set t .aborted)

/-- Every configuration that some interleaving of the transactions `prog` reaches from
the store `db`. -/
inductive Reachable (prog : T → Prog K L V ε α) (db : Store V) : Conf K L T V ε α → Prop
  | start : Reachable prog db ⟨db, fun _ => .idle, []⟩
  | next {c c' : Conf K L T V ε α} : Reachable prog db c → Step prog c c' →
      Reachable prog db c'

/-! ### Locking discipline -/

/-- With the locks `held`, every statement of the program stays under the lock guarding
its location. The one exception is a last read that writes nothing and after which the
program only answers, with answers that `obs` cannot tell apart. -/
inductive Covered (guard : L → K) (obs : α → β) : List K → Prog K L V ε α → Prop
  | ret {held} (a : α) : Covered guard obs held (.ret a)
  | throw {held} (e : ε) : Covered guard obs held (.throw e)
  | lock {held k next} : Covered guard obs (k :: held) next →
      Covered guard obs held (.lock k next)
  | stmt {held l write next} : guard l ∈ held → (∀ v, Covered guard obs held (next v)) →
      Covered guard obs held (.stmt l write next)
  | peek {held l write next} (b : β) : (∀ v, write v = none) →
      (∀ v, ∃ a, next v = .ret a ∧ obs a = b) → Covered guard obs held (.stmt l write next)

/-- What a run leaves: the store, and the answer as far as `obs` sees it. -/
def outcome (obs : α → β) (p : Prog K L V ε α) (db : Store V) : Except ε (β × Store V) :=
  (p.run db).map fun r => (obs r.1, r.2)

/-- `db'` has the values of `db` wherever one of the locks guards. -/
def Agree (guard : L → K) (held : List K) (db db' : Store V) : Prop :=
  ∀ l, guard l ∈ held → db' l = db l

/-- A live transaction has so far done what it would have done alone, on any store that
agrees with the committed one under its locks. -/
structure Tracks (guard : L → K) (obs : α → β) (db : Store V) (whole : Prog K L V ε α)
    (held : List K) (w : Written V) (rest : Prog K L V ε α) : Prop where
  replay : ∀ db', Agree guard held db db' → outcome obs whole db' = outcome obs rest (view db' w)
  covered : Covered guard obs held rest
  own : ∀ l, w l ≠ none → guard l ∈ held

variable {guard : L → K} {obs : α → β} {prog : T → Prog K L V ε α}

omit [DecidableEq T] in
theorem Tracks.begin (db : Store V) {whole : Prog K L V ε α}
    (covered : Covered guard obs [] whole) :
    Tracks guard obs db whole [] (fun _ => none) whole where
  replay _ _ := rfl
  covered := covered
  own _ h := absurd rfl h

omit [DecidableEq T] in
theorem Tracks.lock {db : Store V} {whole next : Prog K L V ε α} {held : List K}
    {w : Written V} {k : K} (h : Tracks guard obs db whole held w (.lock k next)) :
    Tracks guard obs db whole (k :: held) w next where
  replay db' agree :=
    h.replay db' fun l hl => agree l (List.mem_cons_of_mem _ hl)
  covered := by
    cases h.covered with
    | lock inner => exact inner
  own l hl := List.mem_cons_of_mem _ (h.own l hl)

omit [DecidableEq T] in
theorem Tracks.exec {db : Store V} {whole : Prog K L V ε α} {held : List K} {w : Written V}
    {l : L} {write : V l → Option (V l)} {next : V l → Prog K L V ε α}
    (h : Tracks guard obs db whole held w (.stmt l write next)) :
    Tracks guard obs db whole held (Written.write w l (write (view db w l)))
      (next (view db w l)) := by
  cases h.covered with
  | stmt guarded rest =>
    refine ⟨fun db' agree => ?_, rest _, fun l' hl' => ?_⟩
    -- the statement reads what it would read alone, for its location is guarded
    · have same : view db' w l = view db w l := by simp only [view, agree l guarded]
      rw [h.replay db' agree, view_write, ← same]
      rfl
    · by_cases eq : l' = l
      · exact eq ▸ guarded
      · refine h.own l' ?_
        cases wrote : write (view db w l) with
        | none => simpa [wrote, Written.write] using hl'
        | some v => simpa [wrote, Written.write, eq] using hl'
  | peek b silent answers =>
    -- the value read may differ, but not what `obs` sees of the answer
    obtain ⟨a, eqa, oba⟩ := answers (view db w l)
    refine ⟨fun db' agree => ?_, eqa ▸ .ret a, fun l' hl' => ?_⟩
    · obtain ⟨a', eqa', oba'⟩ := answers (view db' w l)
      rw [h.replay db' agree, view_write]
      simp only [outcome, Prog.run, silent, Store.write, eqa, eqa', Except.map, oba, oba']
    · simp only [silent, Written.write] at hl'
      exact h.own l' hl'

omit [DecidableEq L] [DecidableEq T] in
theorem Agree.trans {db db' db'' : Store V} {held : List K} (h : Agree guard held db db')
    (h' : Agree guard held db' db'') : Agree guard held db db'' :=
  fun l hl => (h' l hl).trans (h l hl)

omit [DecidableEq T] in
/-- A commit elsewhere that leaves the guarded locations alone is not noticed. -/
theorem Tracks.undisturbed {db db' : Store V} {whole rest : Prog K L V ε α} {held : List K}
    {w : Written V} (h : Tracks guard obs db whole held w rest)
    (agree : Agree guard held db db') : Tracks guard obs db' whole held w rest where
  replay db'' agree' := h.replay db'' (agree.trans agree')
  covered := h.covered
  own := h.own

/-! ### Serial runs and serializability -/

/-- Run the logged transactions one after another: each succeeds, with an answer that
looks like the logged one. -/
def Serial (obs : α → β) (prog : T → Prog K L V ε α) : Store V → List (T × α) → Store V → Prop
  | db, [], final => final = db
  | db, (t, a) :: rest, final =>
      ∃ mid, outcome obs (prog t) db = .ok (obs a, mid) ∧ Serial obs prog mid rest final

omit [DecidableEq T] in
theorem Serial.append {db mid final : Store V} {xs : List (T × α)} {t : T} {a : α}
    (h : Serial obs prog db xs mid) (last : outcome obs (prog t) mid = .ok (obs a, final)) :
    Serial obs prog db (xs ++ [(t, a)]) final := by
  induction xs generalizing db with
  | nil =>
    cases h
    exact ⟨final, last, rfl⟩
  | cons x xs ih =>
    obtain ⟨next, first, rest⟩ := h
    exact ⟨next, first, ih rest⟩

theorem outcome_ok {p : Prog K L V ε α} {db db' : Store V} {b : β}
    (h : outcome obs p db = .ok (b, db')) : ∃ a, p.run db = .ok (a, db') ∧ obs a = b := by
  unfold outcome at h
  cases ran : p.run db with
  | error e => simp [ran, Except.map] at h
  | ok r =>
    simp only [ran, Except.map, Except.ok.injEq, Prod.mk.injEq] at h
    exact ⟨r.1, by rw [← h.2], h.1⟩

omit [DecidableEq T] in
/-- What every program keeps when it runs alone, a serial run keeps. -/
theorem Serial.keeps {P : Store V → Prop}
    (keep : ∀ t db a db', (prog t).run db = .ok (a, db') → P db → P db') {db final : Store V}
    {log : List (T × α)} (h : Serial obs prog db log final) (base : P db) : P final := by
  induction log generalizing db with
  | nil =>
    cases h
    exact base
  | cons x rest ih =>
    obtain ⟨mid, first, later⟩ := h
    obtain ⟨a, ran, _⟩ := outcome_ok first
    exact ih later (keep _ _ _ _ ran base)

omit [DecidableEq T] in
/-- What relates the log so far to the store, one committed program at a time: the answer on the
log looks like the one that the program gives alone. -/
theorem Serial.tracks_obs {P : List (T × α) → Store V → Prop}
    (step : ∀ log db t a a' db', P log db → (prog t).run db = .ok (a', db') → obs a' = obs a →
      P (log ++ [(t, a)]) db')
    {db final : Store V} {before log : List (T × α)} (base : P before db)
    (h : Serial obs prog db log final) : P (before ++ log) final := by
  induction log generalizing db before with
  | nil =>
    cases h
    rw [List.append_nil]
    exact base
  | cons x rest ih =>
    obtain ⟨t, a⟩ := x
    obtain ⟨mid, first, later⟩ := h
    obtain ⟨a', ran, look⟩ := outcome_ok first
    rw [List.append_cons]
    exact ih (step _ _ t a a' mid base ran look) later

omit [DecidableEq T] in
theorem Serial.tracks {P : List (T × α) → Store V → Prop}
    (step : ∀ log db t a a' db', P log db → (prog t).run db = .ok (a', db') → P (log ++ [(t, a)]) db')
    {db final : Store V} {before log : List (T × α)} (base : P before db)
    (h : Serial obs prog db log final) : P (before ++ log) final :=
  h.tracks_obs (fun log db t a a' db' held ran _ => step log db t a a' db' held ran) base

omit [DecidableEq T] in
/-- A serial run goes through the store in which each of its programs finds the tables. -/
theorem Serial.split {db final : Store V} {before after : List (T × α)} {t : T} {a : α}
    (h : Serial obs prog db (before ++ (t, a) :: after) final) :
    ∃ mid a' db', Serial obs prog db before mid ∧ (prog t).run mid = .ok (a', db') ∧
      obs a' = obs a ∧ Serial obs prog db' after final := by
  induction before generalizing db with
  | nil =>
    obtain ⟨db', here, later⟩ := h
    obtain ⟨a', ran, look⟩ := outcome_ok here
    exact ⟨db, a', db', rfl, ran, look, later⟩
  | cons x before ih =>
    obtain ⟨next, first, rest⟩ := h
    obtain ⟨mid, a', db', earlier, ran, look, later⟩ := ih rest
    exact ⟨mid, a', db', ⟨next, first, earlier⟩, ran, look, later⟩

/-- What every reachable configuration satisfies. -/
structure Inv (guard : L → K) (obs : α → β) (prog : T → Prog K L V ε α) (db₀ : Store V)
    (c : Conf K L T V ε α) : Prop where
  serial : Serial obs prog db₀ c.log c.db
  live : ∀ t held w rest, c.txn t = .live held w rest →
    Tracks guard obs c.db (prog t) held w rest
  apart : ∀ t u, t ≠ u → ∀ held w rest held' w' rest', c.txn t = .live held w rest →
    c.txn u = .live held' w' rest' → List.Disjoint held held'
  logged : ∀ t a, (t, a) ∈ c.log ↔ c.txn t = .committed a
  once : (c.log.map Prod.fst).Nodup

omit [DecidableEq T] in
theorem Inv.initial (db : Store V) : Inv guard obs prog db ⟨db, fun _ => .idle, []⟩ where
  serial := rfl
  live := by intro t held w rest h; cases h
  apart := by intro t u _ held w rest held' w' rest' h; cases h
  logged := by simp
  once := List.nodup_nil

/-- A step that changes one transaction's status and nothing else. -/
theorem Inv.set {db₀ : Store V} {c : Conf K L T V ε α} (h : Inv guard obs prog db₀ c) (t : T)
    (x : Status K L V ε α) (before : ∀ a, c.txn t ≠ .committed a) (after : ∀ a, x ≠ .committed a)
    (tracks : ∀ held w rest, x = .live held w rest → Tracks guard obs c.db (prog t) held w rest)
    (apart : ∀ held w rest, x = .live held w rest → ∀ u, u ≠ t → ∀ held' w' rest',
      c.txn u = .live held' w' rest' → List.Disjoint held held') :
    Inv guard obs prog db₀ (c.set t x) where
  serial := h.serial
  live u held w rest hu := by
    by_cases eq : u = t
    · subst eq
      exact tracks held w rest (by simpa [Conf.set] using hu)
    · exact h.live u held w rest (by simpa [Conf.set, eq] using hu)
  apart u v huv held w rest held' w' rest' hu hv := by
    -- at most one of the two is the transaction that has moved
    by_cases eu : u = t
    · subst eu
      have ev : v ≠ u := fun e => huv e.symm
      exact apart held w rest (by simpa [Conf.set] using hu) v ev held' w' rest'
        (by simpa [Conf.set, ev] using hv)
    · by_cases ev : v = t
      · subst ev
        exact List.disjoint_symm (apart held' w' rest' (by simpa [Conf.set] using hv) u eu
          held w rest (by simpa [Conf.set, eu] using hu))
      · exact h.apart u v huv held w rest held' w' rest' (by simpa [Conf.set, eu] using hu)
          (by simpa [Conf.set, ev] using hv)
  logged u a := by
    rw [show (c.set t x).log = c.log from rfl, h.logged u a]
    by_cases eq : u = t
    · subst eq
      simp only [Conf.set, Function.update_self]
      exact ⟨fun e => absurd e (before a), fun e => absurd e (after a)⟩
    · simp [Conf.set, eq]
  once := h.once

omit [DecidableEq T] in
theorem Inv.apart_of {db₀ : Store V} {c : Conf K L T V ε α} (h : Inv guard obs prog db₀ c)
    {t : T} {held : List K} {w : Written V} {rest : Prog K L V ε α}
    (ht : c.txn t = .live held w rest) :
    ∀ u, u ≠ t → ∀ held' w' rest', c.txn u = .live held' w' rest' → List.Disjoint held held' :=
  fun u hu held' w' rest' hlive => h.apart t u hu.symm held w rest held' w' rest' ht hlive

/-- A commit writes only under the committing transaction's locks. -/
theorem Tracks.commit_agree {db : Store V} {whole rest : Prog K L V ε α} {held other : List K}
    {w : Written V} (h : Tracks guard obs db whole held w rest) (apart : List.Disjoint held other) :
    Agree guard other db (view db w) := by
  intro l hl
  cases wl : w l with
  | none => simp [view, wl]
  | some v => exact absurd hl (apart (h.own l (by simp [wl])))

omit [DecidableEq T] in
/-- What a finished transaction is about to commit is its program run alone on the
committed store. -/
theorem Inv.ran_alone {db₀ : Store V} {c : Conf K L T V ε α} (h : Inv guard obs prog db₀ c)
    {t : T} {held : List K} {w : Written V} {a : α} (ht : c.txn t = .live held w (.ret a)) :
    outcome obs (prog t) c.db = .ok (obs a, view c.db w) := by
  rw [(h.live t held w _ ht).replay c.db fun _ _ => rfl]
  rfl

theorem Inv.commit {db₀ : Store V} {c : Conf K L T V ε α} (h : Inv guard obs prog db₀ c)
    {t : T} {held : List K} {w : Written V} {a : α} (ht : c.txn t = .live held w (.ret a)) :
    Inv guard obs prog db₀
      ⟨view c.db w, Function.update c.txn t (.committed a), c.log ++ [(t, a)]⟩ where
  serial := h.serial.append (h.ran_alone ht)
  live u held' w' rest' hu := by
    by_cases eq : u = t
    · subst eq
      simp at hu
    · have hu : c.txn u = .live held' w' rest' := by simpa [eq] using hu
      exact (h.live u held' w' rest' hu).undisturbed
        ((h.live t held w _ ht).commit_agree (h.apart_of ht u eq held' w' rest' hu))
  apart u v huv held₁ w₁ rest₁ held₂ w₂ rest₂ hu hv := by
    have eu : u ≠ t := by rintro rfl; simp at hu
    have ev : v ≠ t := by rintro rfl; simp at hv
    exact h.apart u v huv held₁ w₁ rest₁ held₂ w₂ rest₂ (by simpa [eu] using hu)
      (by simpa [ev] using hv)
  logged u b := by
    -- a live transaction is not in the log yet
    have fresh : ∀ b, (t, b) ∉ c.log := fun b hb => by
      have := (h.logged t b).mp hb
      rw [ht] at this
      cases this
    by_cases eq : u = t
    · subst eq
      simp only [List.mem_append, List.mem_singleton, Prod.mk.injEq, true_and,
        Function.update_self, Status.committed.injEq]
      exact ⟨fun hb => hb.elim (fun old => absurd old (fresh b)) Eq.symm, fun hb => .inr hb.symm⟩
    · simp [eq, h.logged u b]
  once := by
    rw [List.map_append, List.nodup_append]
    refine ⟨h.once, by simp, ?_⟩
    intro u hu v hv
    simp only [List.map_cons, List.map_nil, List.mem_singleton] at hv
    rintro rfl
    obtain ⟨⟨u', b⟩, member, rfl⟩ := List.mem_map.mp hu
    have := (h.logged u' b).mp member
    rw [show u' = t from hv, ht] at this
    cases this

theorem Inv.step {db₀ : Store V} {c c' : Conf K L T V ε α} (h : Inv guard obs prog db₀ c)
    (covered : ∀ t, Covered guard obs [] (prog t)) (s : Step prog c c') :
    Inv guard obs prog db₀ c' := by
  cases s with
  | start t ht =>
    refine h.set t _ (by simp [ht]) (by simp) ?_ ?_
    · rintro held w rest ⟨⟩
      exact Tracks.begin c.db (covered t)
    · rintro held w rest ⟨⟩ u _ held' _ _ _
      exact List.disjoint_nil_left held'
  -- the new lock is held by no other transaction
  | @lock t held w k next ht free =>
    refine h.set t _ (by simp [ht]) (by simp) ?_ ?_
    · rintro _ _ _ ⟨⟩
      exact (h.live t held w _ ht).lock
    · rintro _ _ _ ⟨⟩ u hu held' w' rest' hlive
      exact List.disjoint_cons_left.mpr
        ⟨free u hu held' w' rest' hlive, h.apart_of ht u hu held' w' rest' hlive⟩
  | exec t ht _ =>
    refine h.set t _ (by simp [ht]) (by simp) ?_ ?_
    · rintro _ _ _ ⟨⟩
      exact (h.live t _ _ _ ht).exec
    · rintro _ _ _ ⟨⟩
      exact h.apart_of ht
  | commit t ht => exact h.commit ht
  | abort t ht => exact h.set t _ (by simp [ht]) (by simp) (by rintro _ _ _ ⟨⟩) (by rintro _ _ _ ⟨⟩)

theorem Reachable.inv {db : Store V} {c : Conf K L T V ε α} (h : Reachable prog db c)
    (covered : ∀ t, Covered guard obs [] (prog t)) : Inv guard obs prog db c := by
  induction h with
  | start => exact Inv.initial db
  | next _ s ih => exact ih.step covered s

/-- Every interleaving of covered programs leaves the committed store of running the
committed ones one after another in commit order, each with the same observed answer. -/
theorem serializable {db : Store V} {c : Conf K L T V ε α} (h : Reachable prog db c)
    (covered : ∀ t, Covered guard obs [] (prog t)) : Serial obs prog db c.log c.db :=
  (h.inv covered).serial

/-- What every covered program keeps when it runs alone, every interleaving keeps. -/
theorem Reachable.keeps {P : Store V → Prop} {db : Store V} {c : Conf K L T V ε α}
    (h : Reachable prog db c) (covered : ∀ t, Covered guard obs [] (prog t))
    (keep : ∀ t db a db', (prog t).run db = .ok (a, db') → P db → P db') (base : P db) : P c.db :=
  (serializable h covered).keeps keep base

/-! ### What a live transaction keeps -/

/-- A condition on the locks held and on what is left to run, kept by every step of a transaction
that reads values meeting `I`, of which it writes no others. -/
structure Kept (I : ∀ l, V l → Prop) (Q : T → List K → Prog K L V ε α → Prop)
    (prog : T → Prog K L V ε α) : Prop where
  start : ∀ t, Q t [] (prog t)
  lock : ∀ t held k next, Q t held (.lock k next) → Q t (k :: held) next
  stmt : ∀ t held l write next v, Q t held (.stmt l write next) → I l v →
    (∀ v', write v = some v' → I l v') ∧ Q t held (next v)

/-- The store and the uncommitted writes meet `I`, and the live transactions `Q`. -/
structure Meets (I : ∀ l, V l → Prop) (Q : T → List K → Prog K L V ε α → Prop)
    (c : Conf K L T V ε α) : Prop where
  store : ∀ l, I l (c.db l)
  live : ∀ t held w rest, c.txn t = .live held w rest → Q t held rest ∧ ∀ l v, w l = some v → I l v

section

variable {I : ∀ l, V l → Prop} {Q : T → List K → Prog K L V ε α → Prop}

omit [DecidableEq L] [DecidableEq T] in
theorem Meets.view {c : Conf K L T V ε α} (h : Meets I Q c) {w : Written V}
    (own : ∀ l v, w l = some v → I l v) (l : L) : I l (view c.db w l) := by
  unfold Locking.view
  cases wrote : w l with
  | none => exact h.store l
  | some v => exact own l v wrote

omit [DecidableEq L] in
theorem Meets.set {c : Conf K L T V ε α} (h : Meets I Q c) (t : T) (x : Status K L V ε α)
    (meets : ∀ held w rest, x = .live held w rest → Q t held rest ∧ ∀ l v, w l = some v → I l v) :
    Meets I Q (c.set t x) where
  store := h.store
  live u held w rest hu := by
    by_cases eq : u = t
    · subst eq
      exact meets held w rest (by simpa [Conf.set] using hu)
    · exact h.live u held w rest (by simpa [Conf.set, eq] using hu)

theorem Meets.step {c c' : Conf K L T V ε α} (h : Meets I Q c) (kept : Kept I Q prog)
    (s : Step prog c c') : Meets I Q c' := by
  cases s with
  | start t ht =>
    refine h.set t _ ?_
    rintro _ _ _ ⟨⟩
    exact ⟨kept.start t, nofun⟩
  | lock t ht free =>
    obtain ⟨q, own⟩ := h.live t _ _ _ ht
    refine h.set t _ ?_
    rintro _ _ _ ⟨⟩
    exact ⟨kept.lock t _ _ _ q, own⟩
  | @exec t held w l write next ht free =>
    obtain ⟨q, own⟩ := h.live t _ _ _ ht
    obtain ⟨writes, rest⟩ := kept.stmt t _ _ _ _ _ q (h.view own l)
    refine h.set t _ ?_
    rintro _ _ _ ⟨⟩
    refine ⟨rest, fun l' v wrote => ?_⟩
    cases new : write (Locking.view c.db w l) with
    | none => exact own l' v (by simpa [Written.write, new] using wrote)
    | some v' =>
      by_cases here : l' = l
      · subst here
        obtain rfl : v' = v := by simpa [Written.write, new] using wrote
        exact writes v' new
      · exact own l' v (by simpa [Written.write, new, here] using wrote)
  | commit t ht =>
    obtain ⟨-, own⟩ := h.live t _ _ _ ht
    refine ⟨h.view own, fun u held' w' rest' hu => ?_⟩
    have other : u ≠ t := by rintro rfl; simp at hu
    exact h.live u held' w' rest' (by simpa [other] using hu)
  | abort t ht => exact h.set t _ nofun

theorem Reachable.meets {db : Store V} {c : Conf K L T V ε α} (h : Reachable prog db c)
    (kept : Kept I Q prog) (base : ∀ l, I l (db l)) : Meets I Q c := by
  induction h with
  | start => exact ⟨base, nofun⟩
  | next _ s ih => exact ih.step kept s

end

/-! ### What a transaction raises -/

/-- On values that meet `I` the program writes such values and raises errors of `E` only. -/
inductive Raises (I : ∀ l, V l → Prop) (E : ε → Prop) : Prog K L V ε α → Prop
  | ret (a : α) : Raises I E (.ret a)
  | throw {e : ε} : E e → Raises I E (.throw e)
  | lock {k next} : Raises I E next → Raises I E (.lock k next)
  | stmt {l write next} : (∀ v, I l v → ∀ v', write v = some v' → I l v') →
      (∀ v, I l v → Raises I E (next v)) → Raises I E (.stmt l write next)

/-- A transaction that has come to an error has one that its program may raise. -/
theorem Reachable.raises {I : ∀ l, V l → Prop} {E : T → ε → Prop} {db : Store V}
    {c : Conf K L T V ε α} (h : Reachable prog db c) (base : ∀ l, I l (db l))
    (programs : ∀ t, Raises I (E t) (prog t)) {t : T} {held : List K} {w : Written V} {e : ε}
    (failed : c.txn t = .live held w (.throw e)) : E t e := by
  have kept : Kept I (fun t _ => Raises I (E t)) prog := by
    refine ⟨programs, fun t held k next q => ?_, fun t held l write next v q meets => ?_⟩
    · cases q with
      | lock inner => exact inner
    · cases q with
      | stmt writes inner => exact ⟨writes v meets, inner v meets⟩
  cases ((h.meets kept base).live t held w _ failed).1 with
  | throw allowed => exact allowed

/-! ### One transaction at a time -/

def Quiet (c : Conf K L T V ε α) : Prop := ∀ t held w rest, c.txn t ≠ .live held w rest

/-- With nobody else under way a live transaction runs to its commit. -/
private theorem Reachable.finish {db : Store V} {t : T} (p : Prog K L V ε α)
    {c : Conf K L T V ε α} (h : Reachable prog db c) (held : List K) (w : Written V)
    (ht : c.txn t = .live held w p)
    (alone : ∀ u, u ≠ t → ∀ held w rest, c.txn u ≠ .live held w rest) {a : α} {db' : Store V}
    (ran : p.run (view c.db w) = .ok (a, db')) :
    Reachable prog db ⟨db', Function.update c.txn t (.committed a), c.log ++ [(t, a)]⟩ := by
  -- induction on what is left to run, for any locks held and writes made so far
  induction p generalizing c held w with
  | ret b =>
    cases ran
    exact .next h (.commit t ht)
  | throw e => cases ran
  | lock k next ih =>
    have free : LockFree c t k := fun u hu _ _ _ hlive => absurd hlive (alone u hu _ _ _)
    have rest := ih (.next h (.lock t ht free)) (k :: held) w (by simp [Conf.set])
      (fun u hu => by simpa [Conf.set, hu] using alone u hu) ran
    simpa [Conf.set] using rest
  | stmt l write next ih =>
    have free : write (view c.db w l) ≠ none → RowFree c t l :=
      fun _ u hu _ _ _ hlive => absurd hlive (alone u hu _ _ _)
    have rest := ih (view c.db w l) (.next h (.exec t ht free)) held
      (Written.write w l (write (view c.db w l))) (by simp [Conf.set])
      (fun u hu => by simpa [Conf.set, hu] using alone u hu)
      (by simpa [Conf.set, view_write, Prog.run] using ran)
    simpa [Conf.set] using rest

/-- A program that succeeds alone on the committed store can be run there, start to
commit, whenever nothing else is under way. -/
theorem Reachable.solo {db : Store V} {c : Conf K L T V ε α} (h : Reachable prog db c)
    (quiet : Quiet c) {t : T} (idle : c.txn t = .idle) {a : α} {db' : Store V}
    (ran : (prog t).run c.db = .ok (a, db')) :
    Reachable prog db ⟨db', Function.update c.txn t (.committed a), c.log ++ [(t, a)]⟩ := by
  have begun : Reachable prog db (c.set t (.live [] (fun _ => none) (prog t))) :=
    .next h (.start t idle)
  have live : (c.set t (.live [] (fun _ => none) (prog t))).txn t =
      .live [] (fun _ => none) (prog t) := by simp [Conf.set]
  have rest := begun.finish (prog t) [] (fun _ => none) live
    (fun u hu => by simpa [Conf.set, hu] using quiet u) (by simpa [Conf.set] using ran)
  simpa [Conf.set] using rest

omit [DecidableEq L] in
theorem Quiet.committed {c : Conf K L T V ε α} (quiet : Quiet c) (db : Store V) (t : T) (a : α)
    (log : List (T × α)) : Quiet ⟨db, Function.update c.txn t (.committed a), log⟩ := by
  intro u held w rest hu
  by_cases eq : u = t
  · subst eq
    simp at hu
  · exact quiet u held w rest (by simpa [eq] using hu)

/-- Some programs one after another. -/
def runAll (prog : T → Prog K L V ε α) : List T → Store V → Except ε (Store V)
  | [], db => .ok db
  | t :: ts, db => ((prog t).run db).bind fun done => runAll prog ts done.2

/-- With nobody under way, programs that have not begun can commit in any order. -/
theorem Reachable.inTurn {db : Store V} {ts : List T} {c : Conf K L T V ε α}
    (h : Reachable prog db c) (quiet : Quiet c) (idle : ∀ t ∈ ts, c.txn t = .idle)
    (distinct : ts.Nodup) {db' : Store V} (ran : runAll prog ts c.db = .ok db') :
    ∃ c', Reachable prog db c' ∧ c'.db = db' ∧ c'.log.map Prod.fst = c.log.map Prod.fst ++ ts := by
  induction ts generalizing c with
  | nil =>
    cases ran
    exact ⟨c, h, rfl, by simp⟩
  | cons t ts ih =>
    obtain ⟨new, later⟩ := List.nodup_cons.mp distinct
    cases first : (prog t).run c.db with
    | error e =>
      rw [runAll, first] at ran
      cases ran
    | ok done =>
      rw [runAll, first] at ran
      have rest : ∀ u ∈ ts, Function.update c.txn t (.committed done.1) u = .idle := by
        intro u member
        rw [Function.update_of_ne (ne_of_mem_of_not_mem member new)]
        exact idle u (List.mem_cons_of_mem _ member)
      obtain ⟨c', reached, eq, log⟩ := ih (h.solo quiet (idle t List.mem_cons_self) first)
        (quiet.committed _ _ _ _) rest later ran
      exact ⟨c', reached, eq, by simpa using log⟩

/-! ### A single call that may fail -/

/-- Run a program alone as one transaction in which the store call numbered `fault`, if
there is one, fails without effect; the commit is the last call. -/
def Prog.attempt : Prog K L V ε α → Option ℕ → Store V → Except (Option ε) (α × Store V)
  | .ret a, fault, db => if fault = some 0 then .error none else .ok (a, db)
  | .throw e, _, _ => .error (some e)
  | .lock _ next, fault, db =>
      if fault = some 0 then .error none else next.attempt (fault.map (· - 1)) db
  | .stmt l write next, fault, db =>
      if fault = some 0 then .error none
      else (next (db l)).attempt (fault.map (· - 1)) (Store.write db l (write (db l)))

theorem Prog.attempt_ok {p : Prog K L V ε α} {fault : Option ℕ} {db : Store V} {r : α × Store V}
    (h : p.attempt fault db = .ok r) : p.run db = .ok r := by
  induction p generalizing fault db with
  | ret a =>
    simp only [Prog.attempt] at h
    split at h
    · cases h
    · simpa [Prog.run] using h
  | throw e => cases h
  | lock k next ih =>
    simp only [Prog.attempt] at h
    split at h
    · cases h
    · exact ih h
  | stmt l write next ih =>
    simp only [Prog.attempt] at h
    split at h
    · cases h
    · exact ih _ h

/-- An error of the program itself is the one it makes when nothing fails. -/
theorem Prog.attempt_throw {p : Prog K L V ε α} {fault : Option ℕ} {db : Store V} {e : ε}
    (h : p.attempt fault db = .error (some e)) : p.run db = .error e := by
  induction p generalizing fault db with
  | ret a =>
    simp only [Prog.attempt] at h
    split at h <;> cases h
  | throw e' =>
    cases h
    rfl
  | lock k next ih =>
    simp only [Prog.attempt] at h
    split at h
    · cases h
    · exact ih h
  | stmt l write next ih =>
    simp only [Prog.attempt] at h
    split at h
    · cases h
    · exact ih _ h

/-- A call is atomic: its transaction commits what its program leaves or rolls back. -/
def Prog.transact (p : Prog K L V ε α) (fault : Option ℕ) (db : Store V) :
    Except (Option ε) α × Store V :=
  match p.attempt fault db with
  | .ok (a, db') => (.ok a, db')
  | .error e => (.error e, db)

end Locking
