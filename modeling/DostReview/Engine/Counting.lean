import DostReview.Engine.Vendored

/-!
# What `process_signals` counts

Counts, finite weights and the per-conversation dedupe record of an account, through the
fold of one call's items. Decay and pruning touch no count.
-/
namespace DostReview.Engine

open Risk

variable (F : FloatOps) (iso : IsoFormat)

theorem FraudTag.ofName_eq {s : String} {t : FraudTag} : FraudTag.ofName s = some t ↔ s = t.name := by
  constructor
  · intro h
    have named := List.find?_some (p := fun t : FraudTag => decide (t.name = s)) h
    exact (of_decide_eq_true named).symm
  · rintro rfl
    exact FraudTag.ofName_name t

theorem FraudTag.name_inj {t u : FraudTag} (h : t.name = u.name) : t = u := by
  have same := FraudTag.ofName_name t
  rw [h, FraudTag.ofName_name] at same
  exact (Option.some.inj same).symm

theorem FraudTag.name_plain (t : FraudTag) : '|' ∉ t.name.toList := by
  cases t <;> decide

theorem FraudTag.halfLife_pos (t : FraudTag) : 0 < t.halfLife := by
  unfold FraudTag.halfLife
  split <;> norm_num

/-- `fraudTagStates[t].count`, 0 when absent. -/
def AccountState.count {F : FloatOps} (st : AccountState F) (t : FraudTag) : ℕ :=
  ((Dict.get? st.fraudTagStates t).map (·.count)).getD 0

def AccountState.Finite {F : FloatOps} (st : AccountState F) : Prop :=
  ∀ e ∈ st.fraudTagStates, F.isfinite e.2.w = true

/-- The dedupe record of a conversation holds the tag. -/
def AccountState.Seen {F : FloatOps} (st : AccountState F) (conv : String) (t : FraudTag) : Prop :=
  ∃ entry, (conv, entry) ∈ st.convSeen ∧ t ∈ entry.tags

theorem recencyWeight_fraction (age : F.Float) (t : FraudTag) :
    F.fraction (recencyWeight F age t) := by
  unfold recencyWeight
  split
  next old => exact F.fraction_halfPow _ _ old t.halfLife_pos
  next => exact F.fraction_one

/-! ### Decay -/

/-- The account as step 2 finds it: decayed, nothing dropped. -/
def decayed (now : DateTime) (last : Option DateTime) (prev : AccountState F) : AccountState F :=
  { prev with fraudTagStates := decayTags F now last (loadTagStates F prev) }

variable {F}

theorem loadTagStates_finite {st : AccountState F} (h : st.Finite) :
    loadTagStates F st = st.fraudTagStates :=
  List.filter_eq_self.mpr h

theorem decayed_count {prev : AccountState F} (h : prev.Finite) (now : DateTime)
    (last : Option DateTime) (t : FraudTag) : (decayed F now last prev).count t = prev.count t := by
  unfold AccountState.count decayed
  rw [loadTagStates_finite h]
  cases last with
  | none => rfl
  | some last => simp [decayTags, Option.map_map, Function.comp_def]

theorem decayed_finite {prev : AccountState F} (h : prev.Finite) (now : DateTime)
    (last : Option DateTime) : (decayed F now last prev).Finite := by
  intro e he
  simp only [decayed, loadTagStates_finite h] at he
  cases last with
  | none => exact h e he
  | some last =>
    obtain ⟨e', he', rfl⟩ := List.mem_map.mp he
    exact F.finite_mul _ _ (h e' he') (recencyWeight_fraction F _ _)

/-! ### One item -/

section

variable {now : DateTime} {st : AccountState F} {item : SignalItem} {t u : FraudTag}

theorem not_mem_seenEntry {conv : String} (fresh : ¬st.Seen conv t) :
    t ∉ (seenEntry F st conv).tags := by
  intro seen
  cases entry : Dict.get? st.convSeen conv with
  | none => simp [seenEntry, entry] at seen
  | some e => exact fresh ⟨e, Dict.mem_of_get? entry, by simpa [seenEntry, entry] using seen⟩

theorem bumpTag_count (age : F.Float) (tags : Dict FraudTag (TagState F)) :
    ((Dict.get? (bumpTag F age t tags) u).map (·.count)).getD 0 =
      ((Dict.get? tags u).map (·.count)).getD 0 + (if u = t then 1 else 0) := by
  unfold bumpTag
  rw [Dict.get?_set]
  by_cases same : u = t
  · subst same
    cases Dict.get? tags u <;> simp
  · simp [same]

theorem foldItem_count_other (named : FraudTag.ofName item.tag = some t) (other : u ≠ t) :
    (foldItem F iso now st item).count u = st.count u := by
  simp only [foldItem, named]
  split
  · rfl
  · simp only [AccountState.count, bumpTag_count, if_neg other, Nat.add_zero]

/-- A tag its conversation has not shown is counted once more. -/
theorem foldItem_count (named : FraudTag.ofName item.tag = some t)
    (fresh : ¬st.Seen (item.conversationId.getD "") t) :
    (foldItem F iso now st item).count t = st.count t + 1 := by
  simp only [foldItem, named, if_neg (not_mem_seenEntry fresh), AccountState.count, bumpTag_count,
    if_true]

theorem foldItem_seen {conv : String} (h : (foldItem F iso now st item).Seen conv u) :
    st.Seen conv u ∨ conv = item.conversationId.getD "" ∧ item.tag = u.name := by
  cases named : FraudTag.ofName item.tag with
  | none =>
    simp only [foldItem, named] at h
    exact .inl h
  | some t =>
    obtain ⟨entry, member, tagged⟩ := h
    -- an entry that was written holds the old tags of its conversation, and perhaps `t`
    have old : u ∈ (seenEntry F st (item.conversationId.getD "")).tags →
        st.Seen (item.conversationId.getD "") u := by
      intro seen
      by_contra fresh
      exact not_mem_seenEntry fresh seen
    simp only [foldItem, named] at member
    split at member
    · rcases Dict.mem_set member with wrote | kept
      · cases wrote
        exact .inl (old tagged)
      · exact .inl ⟨entry, kept, tagged⟩
    · rcases Dict.mem_set member with wrote | kept
      · cases wrote
        rcases List.mem_append.mp tagged with seen | new
        · exact .inl (old seen)
        · rw [List.mem_singleton.mp new]
          exact .inr ⟨rfl, FraudTag.ofName_eq.mp named⟩
      · exact .inl ⟨entry, kept, tagged⟩

theorem foldItem_finite (h : st.Finite) : (foldItem F iso now st item).Finite := by
  cases named : FraudTag.ofName item.tag with
  | none => simpa only [foldItem, named] using h
  | some t =>
    simp only [foldItem, named]
    split
    · exact h
    · intro e he
      rcases Dict.mem_set he with rfl | old
      · refine F.finite_add _ _ ?_ (recencyWeight_fraction F _ _)
        cases entry : Dict.get? st.fraudTagStates t with
        | none => exact F.finite_zero
        | some s => exact h (t, s) (Dict.mem_of_get? entry)
      · exact h e old

end

/-! ### One call -/

section

variable {now : DateTime} {st : AccountState F}

theorem foldl_finite (items : List SignalItem) (h : st.Finite) :
    (items.foldl (foldItem F iso now) st).Finite := by
  induction items generalizing st with
  | nil => exact h
  | cons item items ih => exact ih (foldItem_finite iso h)

theorem foldl_seen {items : List SignalItem} {conv : String} {t : FraudTag}
    (h : (items.foldl (foldItem F iso now) st).Seen conv t) :
    st.Seen conv t ∨ ∃ item ∈ items, conv = item.conversationId.getD "" ∧ item.tag = t.name := by
  induction items generalizing st with
  | nil => exact .inl h
  | cons item items ih =>
    rcases ih h with before | ⟨i, hi, same⟩
    · rcases foldItem_seen iso before with old | new
      · exact .inl old
      · exact .inr ⟨item, by simp, new⟩
    · exact .inr ⟨i, by simp [hi], same⟩

/-- Items of one conversation with different tags it has not shown: each is counted. -/
theorem foldl_count (now : DateTime) (st : AccountState F) {items : List SignalItem} {conv : String}
    (here : ∀ item ∈ items, item.conversationId = some conv)
    (distinct : (items.map (·.tag)).Nodup)
    (fresh : ∀ t : FraudTag, t.name ∈ items.map (·.tag) → ¬st.Seen conv t) (t : FraudTag) :
    (items.foldl (foldItem F iso now) st).count t =
      st.count t + (if t.name ∈ items.map (·.tag) then 1 else 0) := by
  induction items generalizing st with
  | nil => simp
  | cons item items ih =>
    simp only [List.map_cons, List.nodup_cons] at distinct
    have there : item.conversationId = some conv := here item (by simp)
    have freshRest : ∀ u : FraudTag, u.name ∈ items.map (·.tag) →
        ¬(foldItem F iso now st item).Seen conv u := by
      intro u hu seen
      rcases foldItem_seen iso seen with old | ⟨-, same⟩
      · exact fresh u (by simp [hu]) old
      · exact distinct.1 (same ▸ hu)
    rw [List.foldl_cons, ih _ (fun i hi => here i (by simp [hi])) distinct.2 freshRest]
    -- the head item counts `t` or another tag; the rest count `t` at most once in all
    by_cases same : item.tag = t.name
    · have named : FraudTag.ofName item.tag = some t := FraudTag.ofName_eq.mpr same
      have unseen : ¬st.Seen (item.conversationId.getD "") t := by
        rw [there]
        exact fresh t (by simp [same])
      rw [foldItem_count iso named unseen]
      have notLater : t.name ∉ items.map (·.tag) := same ▸ distinct.1
      simp [same, notLater]
    · have other : (foldItem F iso now st item).count t = st.count t := by
        cases named : FraudTag.ofName item.tag with
        | none => simp only [foldItem, named]
        | some u =>
          refine foldItem_count_other iso named fun e => same ?_
          rw [e]
          exact FraudTag.ofName_eq.mp named
      simp [other, Ne.symm same]

/-- A stored state after a call: the fold's counts and weights, and of its dedupe record
nothing that the fold did not leave. -/
theorem vendored_signals {clock : DateTime} {profileId : String} {prev : Option (AccountState F)}
    {signals outcomes : List SignalItem} {out : SignalsOutput (AccountState F)}
    (answered : (vendored F iso).processSignals clock profileId prev signals outcomes = .ok out) :
    ∃ now last folded,
      folded = (signals ++ outcomes).foldl (foldItem F iso now)
        (decayed F now last (prev.getD (AccountState.empty F))) ∧
      out.state.fraudTagStates = folded.fraudTagStates ∧
      ∀ conv t, out.state.Seen conv t → folded.Seen conv t := by
  obtain ⟨out', now, last, ok, tags, seen⟩ := processSignals_ok F iso clock prev signals outcomes
  simp only [vendored, ok, Except.ok.injEq] at answered
  subst answered
  refine ⟨now, last, _, rfl, tags, ?_⟩
  rintro conv t ⟨entry, member, tagged⟩
  rw [seen] at member
  exact ⟨entry, (List.mem_filter.mp member).1, tagged⟩

end

end DostReview.Engine
