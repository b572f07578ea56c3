import Mathlib.Data.List.Basic

/-!
# Pools of concurrent calls

The calls of a system as a list in which a call keeps its place: a new one comes at the
end, a step replaces one. What a call must know of the others is read off the list without
it. A resource that a call takes only while no other holds it is never held twice.
-/
namespace Pool

variable {γ κ : Type} {calls : List γ} {i j : ℕ} {c d : γ}

def others (calls : List γ) (i : ℕ) : List γ := calls.eraseIdx i

theorem mem_others : d ∈ others calls i ↔ ∃ j, j ≠ i ∧ calls[j]? = some d :=
  List.mem_eraseIdx_iff_getElem?

/-- After a step of the call at `i`, a call is the stepped one or another as it was. -/
theorem getElem?_set_cases (h : (calls.set i c)[j]? = some d) :
    (j = i ∧ d = c) ∨ (j ≠ i ∧ calls[j]? = some d) := by
  rw [List.getElem?_set] at h
  split at h
  next same =>
    split at h
    · exact .inl ⟨same.symm, (Option.some.inj h).symm⟩
    · cases h
  next other => exact .inr ⟨Ne.symm other, h⟩

/-- After an arrival, a call is the new one or an old one. -/
theorem getElem?_append_cases (h : (calls ++ [c])[j]? = some d) :
    (j = calls.length ∧ d = c) ∨ calls[j]? = some d := by
  rw [List.getElem?_append] at h
  split at h
  · exact .inr h
  next past =>
    obtain ⟨within, rfl⟩ := List.getElem?_eq_some_iff.mp h
    simp only [List.length_singleton] at within
    exact .inl ⟨by omega, by simp⟩

/-- A step changes what is counted by what it makes of its own call. -/
theorem countP_set (p : γ → Bool) (here : calls[i]? = some c) (c' : γ) :
    (calls.set i c').countP p + (if p c then 1 else 0) =
      calls.countP p + (if p c' then 1 else 0) := by
  induction calls generalizing i with
  | nil => simp at here
  | cons x calls ih =>
    cases i with
    | zero =>
      simp only [List.getElem?_cons_zero, Option.some.injEq] at here
      subst here
      simp only [List.set_cons_zero, List.countP_cons]
      omega
    | succ i =>
      simp only [List.getElem?_cons_succ] at here
      have rest := ih here
      simp only [List.set_cons_succ, List.countP_cons]
      omega

/-- No two calls hold one thing. -/
def Exclusive (holds : γ → Option κ) (calls : List γ) : Prop :=
  ∀ (i j : ℕ) (c d : γ) (k : κ), calls[i]? = some c → calls[j]? = some d →
    holds c = some k → holds d = some k → i = j

variable {holds : γ → Option κ}

theorem Exclusive.nil : Exclusive holds ([] : List γ) := fun i _ _ _ _ h => by simp at h

theorem Exclusive.append (h : Exclusive holds calls) (idle : holds c = none) :
    Exclusive holds (calls ++ [c]) := by
  intro i j a b k hi hj ha hb
  rcases getElem?_append_cases hi with ⟨-, rfl⟩ | hi
  · simp [idle] at ha
  rcases getElem?_append_cases hj with ⟨-, rfl⟩ | hj
  · simp [idle] at hb
  exact h i j a b k hi hj ha hb

/-- A step keeps exclusion if what the call holds after it is held by no other. -/
theorem Exclusive.set (h : Exclusive holds calls)
    (free : ∀ k, holds c = some k → k ∉ (others calls i).filterMap holds) :
    Exclusive holds (calls.set i c) := by
  -- the stepped call shares nothing with a call that stays as it was
  have apart : ∀ j b k, j ≠ i → calls[j]? = some b → holds c = some k → holds b ≠ some k :=
    fun j b k other hj hc hb =>
      free k hc (List.mem_filterMap.mpr ⟨b, mem_others.mpr ⟨j, other, hj⟩, hb⟩)
  intro m n a b k hm hn ha hb
  rcases getElem?_set_cases hm with ⟨hi, ea⟩ | ⟨mi, old⟩ <;>
    rcases getElem?_set_cases hn with ⟨hj, eb⟩ | ⟨ni, old'⟩
  · exact hi.trans hj.symm
  · exact absurd hb (apart n b k ni old' (ea ▸ ha))
  · exact absurd ha (apart m a k mi old (eb ▸ hb))
  · exact h m n a b k old old' ha hb

/-- What a call holds already is held by no other. -/
theorem Exclusive.kept (h : Exclusive holds calls) (mine : calls[i]? = some c) {k : κ}
    (held : holds c = some k) : k ∉ (others calls i).filterMap holds := by
  intro there
  obtain ⟨d, other, hd⟩ := List.mem_filterMap.mp there
  obtain ⟨j, ne, hj⟩ := mem_others.mp other
  exact ne (h j i d c k hj mine hd held)

end Pool
