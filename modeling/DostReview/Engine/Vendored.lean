import Mathlib.Tactic.NormNum
import DostReview.Engine.Conversation
import DostReview.Engine.Signals

/-!
# The vendored engine

What one record's pass through `process_conversation` fires, in one statement, and
`vendor/engine.py` as an engine of the risk service.
-/
namespace DostReview.Engine

open Risk

/-! ### Fired keys -/

/-- A tag name and a profile id can be read off a key: no tag name holds the separator. -/
theorem firedKey_inj {tag tag' p p' : String} (h : firedKey tag p = firedKey tag' p')
    (plain : '|' ∉ tag.toList) (plain' : '|' ∉ tag'.toList) : tag = tag' ∧ p = p' := by
  have chars : tag.toList ++ '|' :: p.toList = tag'.toList ++ '|' :: p'.toList := by
    simpa [firedKey] using congrArg String.toList h
  -- the tag is the key up to the first separator
  have upTo : ∀ (l r : List Char), '|' ∉ l → (l ++ '|' :: r).takeWhile (· ≠ '|') = l := by
    intro l r hl
    rw [List.takeWhile_append_of_pos fun c hc => by simpa using ne_of_mem_of_not_mem hc hl]
    simp
  have tags : tag.toList = tag'.toList := by
    rw [← upTo _ p.toList plain, chars, upTo _ p'.toList plain']
  refine ⟨String.toList_inj.mp tags, String.toList_inj.mp ?_⟩
  rw [tags] at chars
  simpa using chars

/-- The conditions with the tags they fire, in the order of the source. -/
def Conditions.tagged (c : Conditions) : List (Bool × String) :=
  [(c.moneyAskNoMilestone, "money_ask_no_milestone"), (c.identityThenMoney, "identity_then_money"),
    (c.feeEscalation, "fee_escalation"), (c.jumpedDeposit, "jumped_deposit"),
    (c.channelShiftEarly, "channel_shift_early"),
    (c.contactSharePreMilestone, "contact_share_pre_milestone"),
    (c.categoricalBlock, "categorical_block")]

theorem fireAll_eq (c : Conditions) (sender ts : String) (loop : Loop) :
    fireAll c sender ts loop = c.tagged.foldl (fun l e => fireIf e.1 e.2 sender ts l) loop := rfl

/-- The tags of a list that fire: their condition holds and the sender has not fired them. -/
def freshTags (tagged : List (Bool × String)) (sender : String) (fired : List String) : List String :=
  (tagged.filter fun e => e.1 ∧ firedKey e.2 sender ∉ fired).map Prod.snd

/-- What a list of `fire` calls with different tags leaves. -/
theorem foldl_fireIf (tagged : List (Bool × String)) (sender ts : String) (loop : Loop)
    (plain : ∀ e ∈ tagged, '|' ∉ e.2.toList) (distinct : (tagged.map Prod.snd).Nodup) :
    tagged.foldl (fun l e => fireIf e.1 e.2 sender ts l) loop =
      let new := freshTags tagged sender loop.state.fired
      { state := { loop.state with
          fired := (new.map (firedKey · sender)).reverse ++ loop.state.fired }
        derived := loop.derived ++ new.map (⟨·, sender, ts⟩) } := by
  -- induction on the calls still to come, for any loop state they start from
  induction tagged generalizing loop with
  | nil => simp [freshTags]
  | cons e rest ih =>
    obtain ⟨b, tag⟩ := e
    simp only [List.map_cons, List.nodup_cons] at distinct
    have plainRest : ∀ e ∈ rest, '|' ∉ e.2.toList := fun e he => plain e (by simp [he])
    rw [List.foldl_cons, ih _ plainRest distinct.2]
    by_cases fires : b = true ∧ firedKey tag sender ∉ loop.state.fired
    · have head : fireIf b tag sender ts loop =
          { state := { loop.state with fired := firedKey tag sender :: loop.state.fired }
            derived := loop.derived ++ [⟨tag, sender, ts⟩] } := by
        simp [fireIf, fires]
      -- the key just fired is none of the keys still to come
      have others : ∀ e ∈ rest, firedKey e.2 sender ≠ firedKey tag sender := by
        intro e he same
        have := (firedKey_inj same (plainRest e he) (plain (b, tag) (by simp))).1
        exact distinct.1 (this ▸ List.mem_map_of_mem he)
      have same : freshTags rest sender (firedKey tag sender :: loop.state.fired) =
          freshTags rest sender loop.state.fired := by
        unfold freshTags
        congr 1
        refine List.filter_congr fun e he => ?_
        simp [others e he]
      have grown : freshTags ((b, tag) :: rest) sender loop.state.fired =
          tag :: freshTags rest sender loop.state.fired := by
        simp [freshTags, fires]
      simp [head, same, grown]
    · have head : fireIf b tag sender ts loop = loop := by
        simp only [not_and_or, not_not, Bool.not_eq_true] at fires
        simp [fireIf, fires]
      have same : freshTags ((b, tag) :: rest) sender loop.state.fired =
          freshTags rest sender loop.state.fired := by
        simp [freshTags, fires]
      simp [head, same]

/-! ### One event -/

/-- The tags `process_conversation` can derive. -/
def derivedNames : List String :=
  ["money_ask_no_milestone", "identity_then_money", "fee_escalation", "jumped_deposit",
    "channel_shift_early", "contact_share_pre_milestone", "categorical_block"]

theorem tagged_names (c : Conditions) : c.tagged.map Prod.snd = derivedNames := rfl

theorem derivedNames_plain : ∀ tag ∈ derivedNames, '|' ∉ tag.toList := by decide

section

variable (iso : IsoFormat) (prev : Option ConversationState) (ev : Event)

abbrev before : ConversationState := prev.getD .empty

def eventConditions (now : DateTime) : Conditions :=
  let st := absorb (before prev) ev
  conditions iso st (ev.signals.map Prod.fst) ev.senderId (turnOf ev st.turns) now

def passTags : List String :=
  match parseIso iso ev.ts with
  | none => []
  | some now => freshTags (eventConditions iso prev ev now).tagged ev.senderId (before prev).fired

/-- The state in which an event leaves the loop, but for the fired set. -/
def passState : ConversationState :=
  if (parseIso iso ev.ts).isSome then absorb (before prev) ev else before prev

theorem processConversation_event :
    processConversation iso prev [ev] =
      { derivedTags := (passTags iso prev ev).map (⟨·, ev.senderId, ev.ts⟩)
        state := { passState iso prev ev with
          fired := sortedSet (((passTags iso prev ev).map (firedKey · ev.senderId)).reverse ++
            (before prev).fired)
          identityClaimants := sortedSet (passState iso prev ev).identityClaimants } } := by
  cases readable : parseIso iso ev.ts with
  | none => simp [processConversation, processEvent, passTags, passState, readable]
  | some now =>
    have plain : ∀ e ∈ (eventConditions iso prev ev now).tagged, '|' ∉ e.2.toList :=
      fun e he => derivedNames_plain e.2
        (tagged_names (eventConditions iso prev ev now) ▸ List.mem_map_of_mem he)
    have distinct : ((eventConditions iso prev ev now).tagged.map Prod.snd).Nodup := by
      rw [tagged_names]
      decide
    have fires := foldl_fireIf _ ev.senderId ev.ts ⟨absorb (before prev) ev, []⟩ plain distinct
    rw [← fireAll_eq] at fires
    -- the loop has one round
    have round : processEvent iso ⟨before prev, []⟩ ev =
        fireAll (eventConditions iso prev ev now) ev.senderId ev.ts
          ⟨absorb (before prev) ev, []⟩ := by
      simp only [processEvent, readable]
      rfl
    simp only [processConversation, List.foldl_cons, List.foldl_nil, round, fires, passTags,
      passState, readable, Option.isSome_some, if_true, List.nil_append]
    rfl

theorem passTags_fresh {tag : String} (h : tag ∈ passTags iso prev ev) :
    tag ∈ derivedNames ∧ firedKey tag ev.senderId ∉ (before prev).fired := by
  unfold passTags at h
  split at h
  · cases h
  next now _ =>
    obtain ⟨e, he, rfl⟩ := List.mem_map.mp h
    have member := List.mem_filter.mp he
    refine ⟨?_, by simpa using (of_decide_eq_true member.2).2⟩
    rw [← tagged_names (eventConditions iso prev ev now)]
    exact List.mem_map_of_mem member.1

theorem passTags_nodup : (passTags iso prev ev).Nodup := by
  unfold passTags
  split
  · exact List.nodup_nil
  next now _ =>
    have all : ((eventConditions iso prev ev now).tagged.map Prod.snd).Nodup := by
      rw [tagged_names]
      decide
    exact all.sublist (List.filter_sublist.map _)

theorem mem_sortedSet {xs : List String} {x : String} : x ∈ sortedSet xs ↔ x ∈ xs :=
  (List.perm_insertionSort _ _).mem_iff

/-- The fired set grows by exactly the keys of the derived tags. -/
theorem processConversation_fired (key : String) :
    key ∈ (processConversation iso prev [ev]).state.fired ↔
      key ∈ (before prev).fired ∨
        ∃ tag ∈ passTags iso prev ev, key = firedKey tag ev.senderId := by
  simp only [processConversation_event, mem_sortedSet, List.mem_append, List.mem_reverse,
    List.mem_map]
  rw [or_comm]
  exact or_congr_right (exists_congr fun _ => and_congr_right fun _ => eq_comm)

theorem processConversation_derived :
    (processConversation iso prev [ev]).derivedTags =
      (passTags iso prev ev).map (⟨·, ev.senderId, ev.ts⟩) := by
  rw [processConversation_event]

/-- The turn count grows by one, unless the event's timestamp cannot be read. -/
theorem processConversation_turns :
    (processConversation iso prev [ev]).state.turns =
      (before prev).turns + (if (parseIso iso ev.ts).isSome then 1 else 0) := by
  rw [processConversation_event]
  simp only [passState]
  split <;> rfl

end

/-! ### The engine of the service -/

/-- `vendor/engine.py` as the risk service calls it: `process_conversation` always answers. -/
def vendored (F : FloatOps) (iso : IsoFormat) : FraudEngine ConversationState (AccountState F) where
  processConversation _ prev events := .ok (processConversation iso prev events)
  processSignals clock _ prev signals outcomes :=
    match processSignals F iso clock prev signals outcomes with
    | .ok out => .ok out
    | .error e => .error (.raised e)

section

variable (F : FloatOps) (iso : IsoFormat)

theorem riskScore_lt (tags : Dict FraudTag (TagState F)) (tenure : F.Float) :
    riskScore F tags tenure < 101 := by
  unfold riskScore
  simp only
  split
  · norm_num
  · exact F.round_clamped _

theorem map_tierOf {β : Type} {score : ℚ} (h : score < 101) (f : RiskTier → β) :
    ∃ tier, (tierOf score).map f = .ok (f tier) := by
  unfold tierOf
  split
  · exact ⟨_, rfl⟩
  split
  · exact ⟨_, rfl⟩
  split
  · exact ⟨_, rfl⟩
  · exact ⟨_, rfl⟩

/-- `process_signals` always answers, with the folded state pruned to its windows. -/
theorem processSignals_ok (clock : DateTime) (prev : Option (AccountState F))
    (signals outcomes : List SignalItem) :
    ∃ out now last, processSignals F iso clock prev signals outcomes = .ok out ∧
      let folded := foldedState F iso now last (prev.getD (AccountState.empty F))
        (signals ++ outcomes)
      out.state.fraudTagStates = folded.fraudTagStates ∧
        out.state.convSeen = pruneSeen iso now folded.convSeen := by
  unfold processSignals
  simp only
  obtain ⟨tier, h⟩ := map_tierOf (riskScore_lt F _ _) _
  exact ⟨_, _, _, h, rfl, rfl⟩

end

end DostReview.Engine
