import Mathlib.Logic.Basic

/-!
# What a machine shows

Machines whose steps show events to the outside. One machine refines another if whatever it shows
the other can show: it is enough that a relation of their states is kept when every step of the
one is answered by some steps of the other that show the same. Where the other must act before it
is known how the one goes on, the relation takes a guess at that.
-/
namespace Traces

variable {σ τ ε : Type} {step : σ → List ε → σ → Prop} {s t u : σ} {shown more : List ε}

/-- Some steps, and what they show. -/
inductive Path (step : σ → List ε → σ → Prop) (s : σ) : List ε → σ → Prop
  | stay : Path step s [] s
  | next {t u : σ} {shown more : List ε} : Path step s shown t → step t more u →
      Path step s (shown ++ more) u

theorem Path.single (h : step s shown t) : Path step s shown t := Path.stay.next h

theorem Path.trans (h : Path step s shown t) (later : Path step t more u) :
    Path step s (shown ++ more) u := by
  induction later with
  | stay =>
    rw [List.append_nil]
    exact h
  | next _ last ih =>
    rw [← List.append_assoc]
    exact ih.next last

/-- A run from an initial state, and what it shows. -/
def Shows (init : σ → Prop) (step : σ → List ε → σ → Prop) (shown : List ε) (s : σ) : Prop :=
  ∃ s₀, init s₀ ∧ Path step s₀ shown s

variable {init : σ → Prop} {init' : τ → Prop} {step' : τ → List ε → τ → Prop}

theorem Shows.next (h : Shows init step shown s) (last : step s more t) :
    Shows init step (shown ++ more) t := by
  obtain ⟨s₀, start, path⟩ := h
  exact ⟨s₀, start, path.next last⟩

/-- What holds initially and is kept by every step holds at the end of every run. -/
theorem Shows.invariant {P : σ → Prop} (base : ∀ s, init s → P s)
    (keep : ∀ s more t, P s → step s more t → P t) (h : Shows init step shown s) : P s := by
  obtain ⟨s₀, start, path⟩ := h
  induction path with
  | stay => exact base s₀ start
  | next _ last ih => exact keep _ _ _ ih last

/-- Simulation with foresight: what the one machine shows, the other can show, if its state may
depend on a guess at what is going to happen. A step settles some of the guess. -/
theorem Shows.simulated {γ : Type} {R : γ → σ → τ → Prop}
    (base : ∀ guess s, init s → ∃ t, init' t ∧ R guess s t)
    (simulates : ∀ guess s shown more s', Shows init step shown s → step s more s' →
      ∃ before, ∀ t, R before s t → ∃ t', Path step' t more t' ∧ R guess s' t')
    (h : Shows init step shown s) (guess : γ) : ∃ t, Shows init' step' shown t ∧ R guess s t := by
  obtain ⟨s₀, start, path⟩ := h
  induction path generalizing guess with
  | stay =>
    obtain ⟨t, start', related⟩ := base guess s₀ start
    exact ⟨t, ⟨t, start', .stay⟩, related⟩
  | next before last ih =>
    obtain ⟨earlier, follows⟩ := simulates guess _ _ _ _ ⟨s₀, start, before⟩ last
    obtain ⟨t, ⟨t₀, start', path⟩, related⟩ := ih earlier
    obtain ⟨t', after, related'⟩ := follows t related
    exact ⟨t', ⟨t₀, start', path.trans after⟩, related'⟩

end Traces
