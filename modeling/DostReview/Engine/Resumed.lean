import Mathlib.Data.List.Induction
import Mathlib.Data.List.Sort
import Mathlib.Data.String.Basic
import DostReview.Engine.Vendored

/-!
# A conversation in pieces

`process_conversation` is called with the events since its last call and with the state that
this call stored. Its two sets are sorted whenever they are stored; but for their order, a call
goes on from a stored state as the loop goes on from the one that it was stored from.
-/
namespace DostReview.Engine

open Risk

/-! ### The order of the sets -/

theorem sortedSet_eq {xs ys : List String} (perm : xs.Perm ys) : sortedSet xs = sortedSet ys :=
  List.Perm.eq_of_pairwise' (List.pairwise_insertionSort _ _) (List.pairwise_insertionSort _ _)
    ((List.perm_insertionSort _ _).trans (perm.trans (List.perm_insertionSort _ _).symm))

/-- The same state, but for the order of its two sets. -/
structure ConversationState.Alike (st st' : ConversationState) : Prop where
  stages : st'.stages = st.stages
  fired : st'.fired.Perm st.fired
  identityClaimants : st'.identityClaimants.Perm st.identityClaimants
  moneyAskers : st'.moneyAskers = st.moneyAskers
  turns : st'.turns = st.turns
  lastUpdated : st'.lastUpdated = st.lastUpdated

/-- A state as it is stored. -/
def ConversationState.stored (st : ConversationState) : ConversationState :=
  { st with
    fired := sortedSet st.fired
    identityClaimants := sortedSet st.identityClaimants }

theorem ConversationState.alike_stored (st : ConversationState) : st.Alike st.stored :=
  ⟨rfl, List.perm_insertionSort _ _, List.perm_insertionSort _ _, rfl, rfl, rfl⟩

variable {st st' : ConversationState} {loop loop' : Loop} {earlier : List DerivedTag}

theorem ConversationState.Alike.stored_eq (h : st.Alike st') : st'.stored = st.stored := by
  cases st
  cases st'
  obtain ⟨rfl, fired, claimants, rfl, rfl, rfl⟩ := h
  simp only [stored, sortedSet_eq fired, sortedSet_eq claimants]

/-- The loop that goes on from a stored state, after one that had derived some tags already. -/
structure Loop.Resumes (earlier : List DerivedTag) (loop loop' : Loop) : Prop where
  state : loop.state.Alike loop'.state
  derived : loop.derived = earlier ++ loop'.derived

/-! ### One event -/

theorem addMember_perm {xs ys : List String} (perm : ys.Perm xs) (x : String) :
    (addMember ys x).Perm (addMember xs x) := by
  unfold addMember
  by_cases member : x ∈ xs
  · rw [if_pos (perm.mem_iff.mpr member), if_pos member]
    exact perm
  · rw [if_neg (mt perm.mem_iff.mp member), if_neg member]
    exact perm.cons x

theorem ConversationState.Alike.absorb (h : st.Alike st') (ev : Event) :
    (absorb st ev).Alike (absorb st' ev) := by
  refine ⟨?_, h.fired, ?_, ?_, ?_, rfl⟩
  · simp only [Engine.absorb, h.stages, h.turns]
  · simp only [Engine.absorb]
    split
    · exact addMember_perm h.identityClaimants ev.senderId
    · exact h.identityClaimants
  · simp only [Engine.absorb, h.moneyAskers]
  · simp only [Engine.absorb, h.turns]

/-- The conditions do not depend on the order of the claimants. -/
theorem ConversationState.Alike.conditions (h : st.Alike st') (iso : IsoFormat)
    (names : List String) (sender : String) (turn : ℤ) (now : DateTime) :
    conditions iso st' names sender turn now = conditions iso st names sender turn now := by
  simp only [Engine.conditions, h.stages, h.moneyAskers, h.identityClaimants.mem_iff]

theorem Loop.Resumes.fire (h : Loop.Resumes earlier loop loop') (condition : Bool)
    (tag profileId ts : String) :
    Loop.Resumes earlier (fireIf condition tag profileId ts loop)
      (fireIf condition tag profileId ts loop') := by
  unfold fireIf
  by_cases quiet : condition = false ∨ firedKey tag profileId ∈ loop.state.fired
  · rw [if_pos quiet, if_pos (quiet.imp_right h.state.fired.mem_iff.mpr)]
    exact h
  · rw [if_neg quiet, if_neg (mt (Or.imp_right h.state.fired.mem_iff.mp) quiet)]
    refine ⟨{ h.state with fired := h.state.fired.cons _ }, ?_⟩
    rw [h.derived, List.append_assoc]

theorem Loop.Resumes.fires (h : Loop.Resumes earlier loop loop') (c : Conditions)
    (sender ts : String) :
    Loop.Resumes earlier (fireAll c sender ts loop) (fireAll c sender ts loop') := by
  unfold fireAll
  repeat' apply Loop.Resumes.fire
  exact h

theorem Loop.Resumes.event (h : Loop.Resumes earlier loop loop') (iso : IsoFormat) (ev : Event) :
    Loop.Resumes earlier (processEvent iso loop ev) (processEvent iso loop' ev) := by
  unfold processEvent
  cases parseIso iso ev.ts with
  | none => exact h
  | some now =>
    have absorbed := h.state.absorb ev
    simp only [absorbed.turns, absorbed.conditions]
    have entered : Loop.Resumes earlier { loop with state := absorb loop.state ev }
        { loop' with state := absorb loop'.state ev } := ⟨absorbed, h.derived⟩
    exact entered.fires _ _ _

/-! ### All events -/

theorem Loop.Resumes.events (h : Loop.Resumes earlier loop loop') (iso : IsoFormat)
    (all : List Event) :
    Loop.Resumes earlier (all.foldl (processEvent iso) loop)
      (all.foldl (processEvent iso) loop') := by
  induction all generalizing loop loop' with
  | nil => exact h
  | cons ev all ih => exact ih (h.event iso ev)

variable (iso : IsoFormat) (prev : Option ConversationState)

/-- A call for some events and one for those that came later are one call for all of them. -/
theorem processConversation_append (events later : List Event) :
    processConversation iso prev (events ++ later) =
      let first := processConversation iso prev events
      let second := processConversation iso (some first.state) later
      ⟨first.derivedTags ++ second.derivedTags, second.state⟩ := by
  have seam : Loop.Resumes (events.foldl (processEvent iso) ⟨prev.getD .empty, []⟩).derived
      (events.foldl (processEvent iso) ⟨prev.getD .empty, []⟩)
      ⟨(processConversation iso prev events).state, []⟩ :=
    ⟨ConversationState.alike_stored _, by rw [List.append_nil]⟩
  have whole := seam.events iso later
  simp only [processConversation, List.foldl_append] at whole ⊢
  exact congrArg₂ ConversationOutput.mk whole.derived whole.state.stored_eq.symm

/-- The fired set holds what it held before and the keys of what has been derived since. -/
theorem fired_iff_derived (events : List Event) (key : String) :
    key ∈ (processConversation iso prev events).state.fired ↔
      key ∈ (before prev).fired ∨ ∃ d ∈ (processConversation iso prev events).derivedTags,
        key = firedKey d.tag d.profileId := by
  induction events using List.reverseRecOn with
  | nil => simp [processConversation, mem_sortedSet]
  | append_singleton events ev ih =>
    rw [processConversation_append]
    simp only [processConversation_fired, Option.getD_some, ih, processConversation_derived,
      List.mem_append, List.mem_map]
    constructor
    · rintro ((old | ⟨d, member, rfl⟩) | ⟨tag, member, rfl⟩)
      · exact .inl old
      · exact .inr ⟨d, .inl member, rfl⟩
      · exact .inr ⟨_, .inr ⟨tag, member, rfl⟩, rfl⟩
    · rintro (old | ⟨d, member | ⟨tag, member, rfl⟩, rfl⟩)
      · exact .inl (.inl old)
      · exact .inl (.inr ⟨d, member, rfl⟩)
      · exact .inr ⟨tag, member, rfl⟩

theorem derived_name {events : List Event} {d : DerivedTag}
    (member : d ∈ (processConversation iso prev events).derivedTags) : d.tag ∈ derivedNames := by
  induction events using List.reverseRecOn with
  | nil => cases member
  | append_singleton events ev ih =>
    rw [processConversation_append] at member
    simp only [processConversation_derived, List.mem_append, List.mem_map] at member
    rcases member with old | ⟨tag, new, rfl⟩
    · exact ih old
    · exact (passTags_fresh _ _ _ new).1

end DostReview.Engine
