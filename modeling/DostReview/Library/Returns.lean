import Mathlib.Logic.Basic

/-!
# Computations that return

Correctness of computations that may raise: `Returns x post` says that `x` raises nothing and
answers a value with `post`, `Yields x post` the latter only. One rule for each way of putting
computations together; a loop is followed with an invariant.
-/
namespace Except

variable {ε ε' α β : Type}

def Returns (x : Except ε α) (post : α → Prop) : Prop := ∃ a, x = .ok a ∧ post a

theorem Returns.ok {a : α} {post : α → Prop} (h : post a) :
    (.ok a : Except ε α).Returns post :=
  ⟨a, rfl, h⟩

theorem Returns.bind {x : Except ε α} {f : α → Except ε β} {mid : α → Prop} {post : β → Prop}
    (h : x.Returns mid) (next : ∀ a, mid a → (f a).Returns post) : (x >>= f).Returns post := by
  obtain ⟨a, rfl, meets⟩ := h
  exact next a meets

theorem Returns.mapError {x : Except ε α} {post : α → Prop} (h : x.Returns post) (f : ε → ε') :
    (x.mapError f).Returns post := by
  obtain ⟨a, rfl, meets⟩ := h
  exact .ok meets

theorem Returns.foldlM {xs : List β} {f : α → β → Except ε α} {invariant : α → Prop}
    (step : ∀ a, ∀ x ∈ xs, invariant a → (f a x).Returns invariant) {a : α} (start : invariant a) :
    (xs.foldlM f a).Returns invariant := by
  induction xs generalizing a with
  | nil => exact .ok start
  | cons x xs ih =>
    rw [List.foldlM_cons]
    exact (step a x List.mem_cons_self start).bind fun b kept =>
      ih (fun b y later => step b y (List.mem_cons_of_mem x later)) kept

/-- What the computation answers, if it answers, has the property. -/
def Yields (x : Except ε α) (post : α → Prop) : Prop := ∀ a, x = .ok a → post a

theorem Yields.ok {a : α} {post : α → Prop} (h : post a) : (.ok a : Except ε α).Yields post := by
  rintro _ ⟨⟩
  exact h

theorem Yields.error {e : ε} {post : α → Prop} : (.error e : Except ε α).Yields post := nofun

theorem Yields.mono {x : Except ε α} {post post' : α → Prop} (h : x.Yields post)
    (weaker : ∀ a, post a → post' a) : x.Yields post' :=
  fun a eq => weaker a (h a eq)

theorem Yields.bind {x : Except ε α} {f : α → Except ε β} {mid : α → Prop} {post : β → Prop}
    (h : x.Yields mid) (next : ∀ a, mid a → (f a).Yields post) : (x >>= f).Yields post := by
  cases x with
  | ok a => exact next a (h a rfl)
  | error e => exact .error

theorem Yields.map {x : Except ε α} {f : α → β} {post : β → Prop}
    (h : x.Yields fun a => post (f a)) : (x.map f).Yields post := by
  cases x with
  | ok a => exact .ok (h a rfl)
  | error e => exact .error

theorem Yields.mapError {x : Except ε α} {post : α → Prop} (h : x.Yields post) (f : ε → ε') :
    (x.mapError f).Yields post := by
  cases x with
  | ok a => exact .ok (h a rfl)
  | error e => exact .error

theorem Yields.trivial (x : Except ε α) : x.Yields fun _ => True := fun _ _ => .intro

/-- All that the computation can raise is of one kind. -/
def RaisesOnly (x : Except ε α) (kind : ε → Prop) : Prop := ∀ e, x = .error e → kind e

theorem RaisesOnly.ok {kind : ε → Prop} (a : α) : (.ok a : Except ε α).RaisesOnly kind := nofun

theorem RaisesOnly.error {kind : ε → Prop} {e : ε} (h : kind e) :
    (.error e : Except ε α).RaisesOnly kind := by
  rintro e' ⟨⟩
  exact h

theorem RaisesOnly.bind {x : Except ε α} {f : α → Except ε β} {kind : ε → Prop}
    (h : x.RaisesOnly kind) (next : ∀ a, (f a).RaisesOnly kind) : (x >>= f).RaisesOnly kind := by
  cases x with
  | ok a => exact next a
  | error e => exact .error (h e rfl)

end Except
