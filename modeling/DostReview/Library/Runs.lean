import Mathlib.Data.List.Basic

/-!
# Guarded runs

A labelled machine given by a partial step function: `step s a = some s'` when the
action `a` is enabled in `s`. Reachability is taken relative to a guard `ok` on the
state before a step and its action, so that "every run whose steps all meet a
condition" is reachability under that condition.
-/
namespace Runs

variable {σ α : Type}

/-- The states of the runs from `init` whose steps all meet `ok`. -/
inductive Reachable (init : σ → Prop) (step : σ → α → Option σ) (ok : σ → α → Prop) : σ → Prop
  | start {s : σ} : init s → Reachable init step ok s
  | next {s s' : σ} {a : α} : Reachable init step ok s → step s a = some s' → ok s a →
      Reachable init step ok s'

/-- The unguarded case: every step of the machine is allowed. -/
def Anything (_ : σ) (_ : α) : Prop := True

variable {init : σ → Prop} {step : σ → α → Option σ} {ok : σ → α → Prop}

/-- What holds initially and is kept by every allowed step from a reachable state holds
in every reachable state. -/
theorem Reachable.invariant {P : σ → Prop} (base : ∀ s, init s → P s)
    (keep : ∀ s a s', Reachable init step ok s → P s → step s a = some s' → ok s a → P s')
    {s : σ} (h : Reachable init step ok s) : P s := by
  induction h with
  | start hi => exact base _ hi
  | next hr hs hok ih => exact keep _ _ _ hr ih hs hok

theorem Reachable.mono {ok' : σ → α → Prop} (weaker : ∀ s a, ok s a → ok' s a) {s : σ}
    (h : Reachable init step ok s) : Reachable init step ok' s := by
  induction h with
  | start hi => exact .start hi
  | next _ hs hok ih => exact .next ih hs (weaker _ _ hok)

theorem Reachable.trans {s t : σ} (h : Reachable init step ok s)
    (later : Reachable (fun u => u = s) step ok t) : Reachable init step ok t := by
  induction later with
  | start same => exact same ▸ h
  | next _ hs hok ih => exact .next ih hs hok

/-- What every allowed step does to its state, a run does from any of its states on. -/
theorem Reachable.across {R : σ → σ → Prop} (refl : ∀ s, R s s)
    (trans : ∀ s t u, R s t → R t u → R s u)
    (one : ∀ s a s', Reachable init step ok s → step s a = some s' → ok s a → R s s') {s t : σ}
    (h : Reachable init step ok s) (later : Reachable (fun u => u = s) step ok t) : R s t := by
  induction later with
  | start same => exact same ▸ refl s
  | next hr hs hok ih => exact trans _ _ _ ih (one _ _ _ (h.trans hr) hs hok)

/-- Perform a list of actions in order; `none` as soon as one is not enabled. -/
def perform (step : σ → α → Option σ) : σ → List α → Option σ
  | s, [] => some s
  | s, a :: as => (step s a).bind fun s' => perform step s' as

theorem Reachable.perform {s s' : σ} (h : Reachable init step Anything s) {as : List α}
    (run : perform step s as = some s') : Reachable init step Anything s' := by
  induction as generalizing s with
  | nil => cases run; exact h
  | cons a as ih =>
    obtain ⟨t, ht, rest⟩ := Option.bind_eq_some_iff.mp run
    exact ih (.next h ht trivial) rest

def performGuarded (step : σ → α → Option σ) (ok : σ → α → Prop) [∀ s a, Decidable (ok s a)] :
    σ → List α → Option σ
  | s, [] => some s
  | s, a :: as =>
    if ok s a then (step s a).bind fun s' => performGuarded step ok s' as else none

theorem Reachable.performAllowed {guard : σ → α → Prop} [∀ s a, Decidable (guard s a)]
    (allowed : ∀ s a, guard s a → ok s a) {s s' : σ} (h : Reachable init step ok s) {as : List α}
    (run : performGuarded step guard s as = some s') : Reachable init step ok s' := by
  induction as generalizing s with
  | nil => cases run; exact h
  | cons a as ih =>
    simp only [Runs.performGuarded] at run
    split at run
    next guarded =>
      obtain ⟨t, ht, rest⟩ := Option.bind_eq_some_iff.mp run
      exact ih (.next h ht (allowed _ _ guarded)) rest
    next => cases run

theorem Reachable.performGuarded [∀ s a, Decidable (ok s a)] {s s' : σ}
    (h : Reachable init step ok s) {as : List α} (run : performGuarded step ok s as = some s') :
    Reachable init step ok s' := h.performAllowed (fun _ _ allowed => allowed) run

/-! ### Recorded runs -/

variable {η : Type}

/-- The machine that takes notes of its run: what it notes at a step depends on the state
before it and on the action, and no step depends on the notes. -/
def recorded (step : σ → α → Option σ) (note : σ → α → η → η) (x : σ × η) (a : α) :
    Option (σ × η) :=
  (step x.1 a).map fun s => (s, note x.1 a x.2)

/-- An initial state, with nothing noted. -/
def Noted (init : σ → Prop) (blank : η) (x : σ × η) : Prop := init x.1 ∧ x.2 = blank

variable {note : σ → α → η → η} {blank : η} {x y : σ × η}

theorem recorded_eq_some {a : α} :
    recorded step note x a = some y ↔ step x.1 a = some y.1 ∧ y.2 = note x.1 a x.2 := by
  simp only [recorded, Option.map_eq_some_iff]
  constructor
  · rintro ⟨s, moved, rfl⟩
    exact ⟨moved, rfl⟩
  · rintro ⟨moved, noted⟩
    exact ⟨y.1, moved, Prod.ext rfl noted.symm⟩

end Runs
