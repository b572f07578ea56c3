import Mathlib.Data.Fintype.Card
import Mathlib.Logic.Relation
import Mathlib.Order.WellFounded
import DostReview.Library.Transactions

/-!
# Deadlocks

Transactions that wait for each other's advisory locks. Whatever is known of the lock requests
of the programs is known of a live transaction's next request, and a cycle of waiting
transactions is a cycle of any relation that holds wherever a transaction waits while it is
itself waited for.
-/
namespace Locking

variable {K L T : Type} {V : L → Type} {ε α : Type}

/-- The transaction asks for a lock that the other one holds; a lock of its own is granted
again at once. -/
def WaitsFor (c : Conf K L T V ε α) (t u : T) : Prop :=
  ∃ held w k next held' w' rest', c.txn t = .live held w (.lock k next) ∧ k ∉ held ∧
    c.txn u = .live held' w' rest' ∧ k ∈ held'

/-- A cycle of transactions each of which waits for the next. -/
def Deadlocked (c : Conf K L T V ε α) : Prop := ∃ t, Relation.TransGen (WaitsFor c) t t

/-- Every lock the program asks for is asked for with the locks held that `P` allows. -/
inductive Requests (P : List K → K → Prop) : List K → Prog K L V ε α → Prop
  | ret {held} (a : α) : Requests P held (.ret a)
  | throw {held} (e : ε) : Requests P held (.throw e)
  | lock {held k next} : P held k → Requests P (k :: held) next → Requests P held (.lock k next)
  | stmt {held l write next} : (∀ v, Requests P held (next v)) →
      Requests P held (.stmt l write next)

theorem Reachable.requests [DecidableEq L] [DecidableEq T] {P : T → List K → K → Prop}
    {prog : T → Prog K L V ε α} {db : Store V} {c : Conf K L T V ε α} (h : Reachable prog db c)
    (requests : ∀ t, Requests (P t) [] (prog t)) {t : T} {held : List K} {w : Written V}
    {rest : Prog K L V ε α} (live : c.txn t = .live held w rest) : Requests (P t) held rest := by
  have kept : Kept (fun _ _ => True) (fun t => Requests (P t)) prog := by
    refine ⟨requests, fun t held k next q => ?_, fun t held l write next v q _ => ?_⟩
    · cases q with
      | lock _ inner => exact inner
    · cases q with
      | stmt inner => exact ⟨fun _ _ => trivial, inner v⟩
  exact ((h.meets kept fun _ => trivial).live t held w rest live).1

/-! ### Moving one transaction -/

section

variable [DecidableEq T]

@[simp] theorem Conf.set_set (c : Conf K L T V ε α) (t : T) (x y : Status K L V ε α) :
    (c.set t x).set t y = c.set t y := by
  simp [Conf.set]

@[simp] theorem Conf.set_txn_self (c : Conf K L T V ε α) (t : T) (x : Status K L V ε α) :
    (c.set t x).txn t = x := by
  simp [Conf.set]

theorem Conf.set_txn_of_ne (c : Conf K L T V ε α) {t u : T} (x : Status K L V ε α) (other : u ≠ t) :
    (c.set t x).txn u = c.txn u := by
  simp [Conf.set, other]

variable [DecidableEq L] {prog : T → Prog K L V ε α} {db : Store V} {c : Conf K L T V ε α} {t : T}

theorem Reachable.grant {held : List K} {w : Written V} {k : K} {next : Prog K L V ε α}
    (h : Reachable prog db (c.set t (.live held w (.lock k next)))) (free : LockFree c t k) :
    Reachable prog db (c.set t (.live (k :: held) w next)) := by
  have granted := Reachable.next h (.lock t (c.set_txn_self t _) fun u other held' w' rest live =>
    free u other held' w' rest (by rwa [c.set_txn_of_ne _ other] at live))
  rwa [Conf.set_set] at granted

theorem Reachable.exec {held : List K} {w : Written V} {l : L} {write : V l → Option (V l)}
    {next : V l → Prog K L V ε α}
    (h : Reachable prog db (c.set t (.live held w (.stmt l write next)))) (free : RowFree c t l) :
    Reachable prog db (c.set t (.live held (Written.write w l (write (view c.db w l)))
      (next (view c.db w l)))) := by
  have executed := Reachable.next h (.exec t (c.set_txn_self t _) fun _ u other held' w' rest live =>
    free u other held' w' rest (by rwa [c.set_txn_of_ne _ other] at live))
  rwa [Conf.set_set] at executed

end

/-! ### Cycles -/

section

variable {β : Type} {r s : β → β → Prop}

/-- Inside a cycle every element has one before it and one after it. -/
theorem cycle_of_inner (inner : ∀ a b, r a b → (∃ d, r d a) → (∃ d, r b d) → s a b) {a : β}
    (cycle : Relation.TransGen r a a) : Relation.TransGen s a a := by
  have path : ∀ {b}, Relation.TransGen r a b → (∃ d, r b d) → Relation.TransGen s a b := by
    intro b walk
    induction walk with
    | single first =>
      intro after
      obtain ⟨d, -, last⟩ := Relation.TransGen.tail'_iff.mp cycle
      exact .single (inner _ _ first ⟨d, last⟩ after)
    | tail walk last ih =>
      intro after
      obtain ⟨d, -, before⟩ := Relation.TransGen.tail'_iff.mp walk
      exact .tail (ih ⟨_, last⟩) (inner _ _ last ⟨d, before⟩ after)
  obtain ⟨d, first, -⟩ := Relation.TransGen.head'_iff.mp cycle
  exact path cycle ⟨d, first⟩

/-- A cycle visits finitely many elements, each followed by another one of them. -/
theorem exists_walk {a : β} (cycle : Relation.TransGen r a a) :
    ∃ walk : List β, a ∈ walk ∧ ∀ b ∈ walk, ∃ d ∈ walk, r b d := by
  have path : ∀ {d}, Relation.TransGen r a d →
      ∃ walk : List β, a ∈ walk ∧ ∀ b ∈ walk, ∃ d' ∈ d :: walk, r b d' := by
    intro d walked
    induction walked with
    | @single d first => exact ⟨[a], List.mem_singleton_self a, by simpa using .inl first⟩
    | @tail b d walked last ih =>
      obtain ⟨walk, start, next⟩ := ih
      refine ⟨b :: walk, List.mem_cons_of_mem _ start, fun b' visited => ?_⟩
      rcases List.mem_cons.mp visited with rfl | earlier
      · exact ⟨d, List.mem_cons_self, last⟩
      · obtain ⟨d', later, follows⟩ := next b' earlier
        exact ⟨d', List.mem_cons_of_mem _ later, follows⟩
  obtain ⟨walk, start, next⟩ := path cycle
  refine ⟨walk, start, fun b visited => ?_⟩
  obtain ⟨d, later, follows⟩ := next b visited
  rcases List.mem_cons.mp later with rfl | later
  · exact ⟨d, start, follows⟩
  · exact ⟨d, later, follows⟩

/-- Among finitely many, if everyone is followed by one, some follow each other in a cycle. -/
theorem exists_cycle [Finite β] [Nonempty β] (follows : ∀ a, ∃ b, r a b) :
    ∃ a, Relation.TransGen r a a := by
  by_contra acyclic
  have trans : IsTrans β fun a b => Relation.TransGen r b a :=
    ⟨fun _ _ _ first next => next.trans first⟩
  have irrefl : Std.Irrefl fun a b => Relation.TransGen r b a :=
    ⟨fun a cycle => acyclic ⟨a, cycle⟩⟩
  -- the last one is followed by nobody
  obtain ⟨a, -, last⟩ := (Finite.wellFounded_of_trans_of_irrefl
    fun a b => Relation.TransGen r b a).has_min Set.univ Set.univ_nonempty
  obtain ⟨b, next⟩ := follows a
  exact last b (Set.mem_univ b) (.single next)

end

end Locking
