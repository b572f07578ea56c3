import Mathlib.Data.Option.Basic
import DostReview.Library.Transactions

/-!
# The same transactions on another store

Two stores may hold the same things in different shapes. Programs that take the same locks, and
whose statements make related values of related ones, cannot be told apart by anything but these
shapes: every interleaving of the one is an interleaving of the other.
-/
namespace Locking

variable {K L T : Type} {V V' : L → Type} {ε α : Type}

/-- Two programs that do the same on stores related by `R`: the same locks, related writes from
related values, and in the end the same answer or the same error. -/
inductive Prog.Mirrors (R : ∀ l, V l → V' l → Prop) : Prog K L V ε α → Prog K L V' ε α → Prop
  | ret (a : α) : Prog.Mirrors R (.ret a) (.ret a)
  | throw (e : ε) : Prog.Mirrors R (.throw e) (.throw e)
  | lock {k : K} {next next'} :
      Prog.Mirrors R next next' → Prog.Mirrors R (.lock k next) (.lock k next')
  | stmt {l : L} {write write' next next'} :
      (∀ v v', R l v v' → Option.Rel (R l) (write v) (write' v')) →
      (∀ v v', R l v v' → Prog.Mirrors R (next v) (next' v')) →
      Prog.Mirrors R (.stmt l write next) (.stmt l write' next')

/-- The same standing, with related uncommitted writes and programs still to run. -/
inductive Status.Mirrors (R : ∀ l, V l → V' l → Prop) :
    Status K L V ε α → Status K L V' ε α → Prop
  | idle : Status.Mirrors R .idle .idle
  | live {held : List K} {w : Written V} {w' : Written V'} {rest rest'} :
      (∀ l, Option.Rel (R l) (w l) (w' l)) → Prog.Mirrors R rest rest' →
      Status.Mirrors R (.live held w rest) (.live held w' rest')
  | committed (a : α) : Status.Mirrors R (.committed a) (.committed a)
  | aborted : Status.Mirrors R .aborted .aborted

/-- Related stores, the same standing of every transaction, and the same log. -/
structure Conf.Mirrors (R : ∀ l, V l → V' l → Prop) (c : Conf K L T V ε α)
    (c' : Conf K L T V' ε α) : Prop where
  db : ∀ l, R l (c.db l) (c'.db l)
  txn : ∀ t, (c.txn t).Mirrors R (c'.txn t)
  log : c'.log = c.log

variable {R : ∀ l, V l → V' l → Prop}

section

variable {γ δ : Type} {r : γ → δ → Prop} {x : Option γ} {y : Option δ}

theorem rel_getD (h : Option.Rel r x y) {a : γ} {b : δ} (default : r a b) :
    r (x.getD a) (y.getD b) := by
  cases h with
  | some related => exact related
  | none => exact default

theorem rel_none (h : Option.Rel r x y) (empty : x = none) : y = none := by
  cases h with
  | some => cases empty
  | none => rfl

theorem rel_swap (h : Option.Rel r x y) : Option.Rel (fun b a => r a b) y x := by
  cases h with
  | some related => exact .some related
  | none => exact .none

end

section

variable {w : Written V} {w' : Written V'}

theorem view_related {db : Store V} {db' : Store V'} (stores : ∀ l, R l (db l) (db' l))
    (writes : ∀ l, Option.Rel (R l) (w l) (w' l)) (l : L) :
    R l (view db w l) (view db' w' l) :=
  rel_getD (writes l) (stores l)

theorem write_related [DecidableEq L] (writes : ∀ l, Option.Rel (R l) (w l) (w' l)) (l : L)
    {v : Option (V l)} {v' : Option (V' l)} (new : Option.Rel (R l) v v') (l' : L) :
    Option.Rel (R l') (Written.write w l v l') (Written.write w' l v' l') := by
  cases new with
  | none => exact writes l'
  | some values =>
    by_cases same : l' = l
    · subst same
      simpa [Written.write] using Option.Rel.some values
    · simpa [Written.write, same] using writes l'

end

theorem Status.Mirrors.live_left {x : Status K L V ε α} {held : List K} {w' : Written V'}
    {rest' : Prog K L V' ε α} (h : x.Mirrors R (.live held w' rest')) :
    ∃ w rest, x = .live held w rest ∧ (∀ l, Option.Rel (R l) (w l) (w' l)) ∧
      Prog.Mirrors R rest rest' := by
  cases h with
  | live writes more => exact ⟨_, _, rfl, writes, more⟩

section

variable [DecidableEq T] {c d : Conf K L T V ε α} {c' : Conf K L T V' ε α}

theorem Conf.Mirrors.set (h : c.Mirrors R c') (t : T) {x : Status K L V ε α}
    {x' : Status K L V' ε α} (new : x.Mirrors R x') : (c.set t x).Mirrors R (c'.set t x') where
  db := h.db
  txn u := by
    by_cases same : u = t
    · subst same
      simpa [Conf.set] using new
    · simpa [Conf.set, same] using h.txn u
  log := h.log

omit [DecidableEq T] in
theorem Conf.Mirrors.lockFree (h : c.Mirrors R c') {t : T} {k : K} (free : LockFree c t k) :
    LockFree c' t k := by
  intro u other held w' rest' live
  obtain ⟨w, rest, there, -, -⟩ := (live ▸ h.txn u).live_left
  exact free u other held w rest there

omit [DecidableEq T] in
theorem Conf.Mirrors.rowFree (h : c.Mirrors R c') {t : T} {l : L} (free : RowFree c t l) :
    RowFree c' t l := by
  intro u other held w' rest' live
  obtain ⟨w, rest, there, writes, -⟩ := (live ▸ h.txn u).live_left
  exact rel_none (writes l) (free u other held w rest there)

variable [DecidableEq L] {prog : T → Prog K L V ε α} {prog' : T → Prog K L V' ε α}

/-- Every step of the one is a step of the other. -/
theorem Conf.Mirrors.step (h : c.Mirrors R c') (programs : ∀ t, Prog.Mirrors R (prog t) (prog' t))
    (step : Step prog c d) : ∃ d', Step prog' c' d' ∧ d.Mirrors R d' := by
  cases step with
  | start t idle =>
    have there := h.txn t
    rw [idle] at there
    cases idle' : c'.txn t <;> rw [idle'] at there <;> cases there
    exact ⟨_, .start t idle', h.set t (.live (fun _ => .none) (programs t))⟩
  | @lock t held w k next live free =>
    have there := h.txn t
    rw [live] at there
    cases live' : c'.txn t <;> rw [live'] at there <;> cases there
    next writes more =>
      cases more with
      | lock more => exact ⟨_, .lock t live' (h.lockFree free), h.set t (.live writes more)⟩
  | @exec t held w l write next live free =>
    have there := h.txn t
    rw [live] at there
    cases live' : c'.txn t <;> rw [live'] at there <;> cases there
    next w' rest' writes more =>
      cases more with
      | @stmt _ _ write' _ next' write_ more =>
        have read := view_related h.db writes l
        have new := write_ _ _ read
        -- what writes nothing here writes nothing there
        exact ⟨_, .exec t live' fun writing => h.rowFree (free (mt (rel_none new) writing)),
          h.set t (.live (write_related writes l new) (more _ _ read))⟩
  | @commit t held w a live =>
    have there := h.txn t
    rw [live] at there
    cases live' : c'.txn t <;> rw [live'] at there <;> cases there
    next writes more =>
      cases more
      refine ⟨_, .commit t live', view_related h.db writes, fun u => ?_, by rw [h.log]⟩
      by_cases same : u = t
      · subst same
        simpa using Status.Mirrors.committed a
      · simpa [same] using h.txn u
  | @abort t held w rest live =>
    have there := h.txn t
    rw [live] at there
    cases live' : c'.txn t <;> rw [live'] at there <;> cases there
    exact ⟨_, .abort t live', h.set t .aborted⟩

/-- Every configuration that the one reaches mirrors one that the other reaches. -/
theorem Reachable.mirrors (programs : ∀ t, Prog.Mirrors R (prog t) (prog' t)) {db : Store V}
    {db' : Store V'} (start : ∀ l, R l (db l) (db' l)) (h : Reachable prog db c) :
    ∃ c', Reachable prog' db' c' ∧ c.Mirrors R c' := by
  induction h with
  | start => exact ⟨_, .start, start, fun _ => .idle, rfl⟩
  | next _ step ih =>
    obtain ⟨c', reached, mirrors⟩ := ih
    obtain ⟨d', step', after⟩ := mirrors.step programs step
    exact ⟨d', .next reached step', after⟩

end

/-! ### The other way round -/

theorem Prog.Mirrors.swap {p : Prog K L V ε α} {p' : Prog K L V' ε α} (h : Prog.Mirrors R p p') :
    Prog.Mirrors (fun l v' v => R l v v') p' p := by
  induction h with
  | ret a => exact .ret a
  | throw e => exact .throw e
  | lock _ ih => exact .lock ih
  | stmt write _ ih =>
    exact .stmt (fun v' v related => rel_swap (write v v' related)) fun v' v related =>
      ih v v' related

theorem Status.Mirrors.swap {x : Status K L V ε α} {x' : Status K L V' ε α} (h : x.Mirrors R x') :
    x'.Mirrors (fun l v' v => R l v v') x := by
  cases h with
  | idle => exact .idle
  | live writes more => exact .live (fun l => rel_swap (writes l)) more.swap
  | committed a => exact .committed a
  | aborted => exact .aborted

theorem Conf.Mirrors.swap {c : Conf K L T V ε α} {c' : Conf K L T V' ε α} (h : c.Mirrors R c') :
    c'.Mirrors (fun l v' v => R l v v') c where
  db := h.db
  txn t := (h.txn t).swap
  log := h.log.symm

/-- Each reaches what the other reaches. -/
theorem reachable_iff_mirrors [DecidableEq T] [DecidableEq L] {prog : T → Prog K L V ε α}
    {prog' : T → Prog K L V' ε α} (programs : ∀ t, Prog.Mirrors R (prog t) (prog' t)) {db : Store V}
    {db' : Store V'} (start : ∀ l, R l (db l) (db' l)) :
    (∀ c, Reachable prog db c → ∃ c', Reachable prog' db' c' ∧ c.Mirrors R c') ∧
      ∀ c', Reachable prog' db' c' → ∃ c, Reachable prog db c ∧ c.Mirrors R c' := by
  refine ⟨fun c reached => reached.mirrors programs start, fun c' reached => ?_⟩
  obtain ⟨c, reached, mirrors⟩ := reached.mirrors (fun t => (programs t).swap) start
  exact ⟨c, reached, mirrors.swap⟩

end Locking
