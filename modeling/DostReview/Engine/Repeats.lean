import Mathlib.Data.List.Dedup
import DostReview.Engine.Counting

/-!
# The repeat rule

A tag of one account over a run of `process_signals` calls with one outcome each. As long as
the tag's reports name different conversations, each is counted and its counterparty is kept
for the repeat window, so that three recent reports put the tag in `repeatedAcross`.
-/
namespace DostReview.Engine

open Risk

variable {F : FloatOps} (iso : IsoFormat)

/-! ### One call in full -/

/-- The clock of a call: its reading, pinned to the stored one. -/
def nowOf (clock : DateTime) (prev : Option (AccountState F)) : DateTime :=
  pinClock clock ((prev.getD (AccountState.empty F)).lastUpdated.bind (parseIso iso))

/-- The account after step 2 of a call. -/
def foldedOf (clock : DateTime) (prev : Option (AccountState F)) (items : List SignalItem) :
    AccountState F :=
  let st := prev.getD (AccountState.empty F)
  items.foldl (foldItem F iso (nowOf iso clock prev))
    (decayed F (nowOf iso clock prev) (st.lastUpdated.bind (parseIso iso)) st)

theorem vendored_answer {clock : DateTime} {profileId : String} {prev : Option (AccountState F)}
    {signals outcomes : List SignalItem} {out : SignalsOutput (AccountState F)}
    (answered : (vendored F iso).processSignals clock profileId prev signals outcomes = .ok out) :
    let now := nowOf iso clock prev
    let folded := foldedOf iso clock prev (signals ++ outcomes)
    out.repeatedAcross = repeatedTags iso now folded.recent ∧
    out.state =
      { fraudTagStates := folded.fraudTagStates
        recent := pruneRecent iso now folded.recent
        denoms := folded.denoms
        convSeen := pruneSeen iso now folded.convSeen
        lastUpdated := some (iso.isoformat now) } := by
  obtain ⟨tier, h⟩ := map_tierOf (riskScore_lt F
    (foldedOf iso clock prev (signals ++ outcomes)).fraudTagStates (F.lit 14)) fun tier => _
  have ran : processSignals F iso clock prev signals outcomes = .ok _ := h
  simp only [vendored, ran, Except.ok.injEq] at answered
  subst answered
  exact ⟨rfl, rfl⟩

/-! ### The reports of a tag -/

/-- A call of `process_signals` with one item: its clock reading and the item. -/
abbrev Told := DateTime × SignalItem

def keyOf (item : SignalItem) : String := item.conversationId.getD ""

def reportsOf (t : FraudTag) (calls : List Told) : List Told :=
  calls.filter fun c => c.2.tag = t.name

/-- `recent` has the counterparty of the report, with a stamp not before the report. -/
def Noted (entries : List RecentEntry) (c : Told) : Prop :=
  ∃ x ∈ entries, c.2.counterpartyId = some x.cp ∧ x.cp ≠ "" ∧
    ∃ stamp, parseIso iso x.ts = some stamp ∧ c.1.instant ≤ stamp.instant

/-- What an account holds of a tag: every report is counted, and those since an instant are in
`recent`. -/
structure Tells (t : FraudTag) (calls : List Told) (st : AccountState F) (since : ℤ) : Prop where
  finite : st.Finite
  seen : ∀ conv, st.Seen conv t → ∃ c ∈ reportsOf t calls, conv = keyOf c.2
  count : st.count t = (reportsOf t calls).length
  recent : ∀ c ∈ reportsOf t calls, since ≤ c.1.instant →
    Noted iso ((Dict.get? st.recent t).getD []) c

variable {iso} {t : FraudTag} {calls : List Told} {st : AccountState F} {since : ℤ}

theorem Tells.empty : Tells iso t [] (AccountState.empty F) since where
  finite e he := by cases he
  seen conv h := by
    obtain ⟨entry, member, -⟩ := h
    cases member
  count := rfl
  recent c hc := by cases hc

theorem Tells.decayed (h : Tells iso t calls st since) (now : DateTime) (last : Option DateTime) :
    Tells iso t calls (decayed F now last st) since where
  finite := decayed_finite h.finite now last
  seen := h.seen
  count := (decayed_count h.finite now last t).trans h.count
  recent := h.recent

/-! ### One item -/

theorem foldItem_recent_other {now : DateTime} {item : SignalItem} (other : item.tag ≠ t.name) :
    Dict.get? (foldItem F iso now st item).recent t = Dict.get? st.recent t := by
  cases named : FraudTag.ofName item.tag with
  | none => simp only [foldItem, named]
  | some u =>
    have ne : t ≠ u := fun e => other (e ▸ FraudTag.ofName_eq.mp named)
    simp only [foldItem, named]
    split
    · rfl
    · unfold noteCounterparty
      split
      · rfl
      · split
        · rfl
        · rw [Dict.get?_set, if_neg ne]

/-- A report in a new conversation is noted at the clock of its call. -/
theorem foldItem_recent {now : DateTime} {item : SignalItem} {cp : String} (tagged : item.tag = t.name)
    (fresh : ¬st.Seen (keyOf item) t) (reporter : item.counterpartyId = some cp) (named : cp ≠ "")
    (undated : item.createdAt = none) (untimed : item.ts = none) :
    Dict.get? (foldItem F iso now st item).recent t =
      some ((Dict.get? st.recent t).getD [] ++ [⟨cp, iso.isoformat now⟩]) := by
  have created : createdOf iso now item = now := by simp [createdOf, undated, untimed]
  have unseen : t ∉ (seenEntry F st (item.conversationId.getD "")).tags := not_mem_seenEntry fresh
  simp only [foldItem, FraudTag.ofName_eq.mpr tagged, if_neg unseen, noteCounterparty, reporter,
    if_neg named, created, Dict.get?_set, if_true]

theorem Noted.append {entries : List RecentEntry} {c : Told} (h : Noted iso entries c)
    (more : List RecentEntry) : Noted iso (entries ++ more) c := by
  obtain ⟨x, hx, rest⟩ := h
  exact ⟨x, List.mem_append_left _ hx, rest⟩

/-- What a call's item may be: an outcome that names a reporter, in a conversation that no other
report of its tag has named. -/
structure Fresh (t : FraudTag) (calls : List Told) (item : SignalItem) : Prop where
  undated : item.createdAt = none
  untimed : item.ts = none
  reporter : item.tag = t.name → ∃ cp, item.counterpartyId = some cp ∧ cp ≠ ""
  conversation : item.tag = t.name → ∀ c ∈ reportsOf t calls, keyOf c.2 ≠ keyOf item

theorem Tells.foldItem (h : Tells iso t calls st since) {now clock : DateTime} {item : SignalItem}
    (fresh : Fresh t calls item) (stamp : parseIso iso (iso.isoformat now) = some now)
    (notBefore : clock.instant ≤ now.instant) :
    Tells iso t (calls ++ [(clock, item)]) (foldItem F iso now st item) since := by
  by_cases tagged : item.tag = t.name
  · obtain ⟨cp, reporter, named⟩ := fresh.reporter tagged
    -- a conversation that has been seen is one that a report has named
    have unseen : ¬st.Seen (keyOf item) t := by
      intro seen
      obtain ⟨c, hc, same⟩ := h.seen _ seen
      exact fresh.conversation tagged c hc same.symm
    have grown : reportsOf t (calls ++ [(clock, item)]) = reportsOf t calls ++ [(clock, item)] := by
      simp [reportsOf, List.filter_append, tagged]
    refine ⟨foldItem_finite iso h.finite, ?_, ?_, ?_⟩
    · intro conv seen
      rw [grown]
      rcases foldItem_seen iso seen with old | ⟨here, -⟩
      · obtain ⟨c, hc, same⟩ := h.seen conv old
        exact ⟨c, List.mem_append_left _ hc, same⟩
      · exact ⟨(clock, item), by simp, here⟩
    · rw [grown, foldItem_count iso (FraudTag.ofName_eq.mpr tagged) unseen, h.count,
        List.length_append, List.length_singleton]
    · intro c hc recently
      rw [foldItem_recent tagged unseen reporter named fresh.undated fresh.untimed]
      rw [grown] at hc
      rcases List.mem_append.mp hc with old | new
      · exact (h.recent c old recently).append _
      · rw [List.mem_singleton.mp new]
        exact ⟨⟨cp, iso.isoformat now⟩, by simp, reporter, named, now, stamp, notBefore⟩
  -- an item of another tag leaves what is kept of this one
  · have same : reportsOf t (calls ++ [(clock, item)]) = reportsOf t calls := by
      simp [reportsOf, List.filter_append, tagged]
    refine ⟨foldItem_finite iso h.finite, ?_, ?_, ?_⟩
    · intro conv seen
      rw [same]
      rcases foldItem_seen iso seen with old | ⟨-, mine⟩
      · exact h.seen conv old
      · exact absurd mine tagged
    · rw [same, ← h.count]
      cases named : FraudTag.ofName item.tag with
      | none => simp only [Engine.foldItem, named]
      | some u =>
        have other : t ≠ u := fun e => tagged (e ▸ FraudTag.ofName_eq.mp named)
        exact foldItem_count_other iso named other
    · rw [same, foldItem_recent_other tagged]
      exact h.recent

/-! ### The windows -/

theorem within_of_le {window : ℤ} {now stamp : DateTime} {ts : String}
    (read : parseIso iso ts = some stamp) (recent : now.instant - days window ≤ stamp.instant) :
    within iso window now (some ts) = true := by
  simp [within, read, recent]

/-- Pruning keeps what was noted of the reports inside the window. -/
theorem Noted.prune {recent : Dict FraudTag (List RecentEntry)} {c : Told} {now : DateTime}
    (h : Noted iso ((Dict.get? recent t).getD []) c) (late : now.instant - days 30 ≤ c.1.instant) :
    Noted iso ((Dict.get? (pruneRecent iso now recent) t).getD []) c := by
  obtain ⟨x, hx, reporter, named, stamp, read, notBefore⟩ := h
  cases found : Dict.get? recent t with
  | none => simp [found] at hx
  | some entries =>
    rw [found, Option.getD_some] at hx
    have kept : x ∈ (dated entries).filter fun x => within iso 30 now (some x.ts) := by
      have inside := within_of_le read (late.trans notBefore)
      simp [dated, hx, named, inside]
    have pruned : Dict.get? (pruneRecent iso now recent) t =
        some ((dated entries).filter fun x => within iso 30 now (some x.ts)) := by
      apply Dict.get?_filter
      · rw [Dict.get?_mapValues, found, Option.map_some]
      · simpa using List.ne_nil_of_mem kept
    rw [pruned, Option.getD_some]
    exact ⟨x, kept, reporter, named, stamp, read, notBefore⟩

/-- Three reports inside the repeat window, from three reporters. -/
theorem repeated_of_noted {recent : Dict FraudTag (List RecentEntry)} {now : DateTime}
    {reports : List Told} (three : 3 ≤ reports.length)
    (reporters : (reports.map fun c => c.2.counterpartyId).Nodup)
    (noted : ∀ c ∈ reports, Noted iso ((Dict.get? recent t).getD []) c)
    (late : ∀ c ∈ reports, now.instant - days 7 ≤ c.1.instant) :
    t.name ∈ repeatedTags iso now recent := by
  have first : ∃ c, c ∈ reports := List.exists_mem_of_length_pos (by omega)
  obtain ⟨c, hc⟩ := first
  cases found : Dict.get? recent t with
  | none =>
    obtain ⟨x, hx, -⟩ := noted c hc
    simp [found] at hx
  | some entries =>
    let inside := (dated entries).filter fun x => within iso 7 now (some x.ts)
    -- each reporter is the counterparty of an entry inside the window
    have included : reports.map (fun c => c.2.counterpartyId) ⊆
        (inside.map (·.cp)).dedup.map some := by
      intro reporter member
      obtain ⟨c, hc, rfl⟩ := List.mem_map.mp member
      obtain ⟨x, hx, same, named, stamp, read, notBefore⟩ := noted c hc
      rw [found, Option.getD_some] at hx
      have recently := within_of_le read ((late c hc).trans notBefore)
      have kept : x ∈ inside := by simp [inside, dated, hx, named, recently]
      rw [same]
      exact List.mem_map_of_mem (List.mem_dedup.mpr (List.mem_map_of_mem kept))
    -- the reporters are distinct, so there are no fewer counterparties
    have enough := (List.subperm_of_subset reporters included).length_le
    rw [List.length_map, List.length_map] at enough
    unfold repeatedTags
    rw [(List.perm_insertionSort _ _).mem_iff]
    refine List.mem_map.mpr ⟨(t, entries), List.mem_filter.mpr ⟨Dict.mem_of_get? found, ?_⟩, rfl⟩
    exact decide_eq_true (three.trans enough)

/-- What the answer of a call stores, its windows pruned. -/
def AccountState.pruned (iso : IsoFormat) (now : DateTime) (st : AccountState F) : AccountState F :=
  { fraudTagStates := st.fraudTagStates
    recent := pruneRecent iso now st.recent
    denoms := st.denoms
    convSeen := pruneSeen iso now st.convSeen
    lastUpdated := some (iso.isoformat now) }

theorem Tells.pruned (h : Tells iso t calls st since) {now : DateTime}
    (later : since ≤ now.instant - days 30) :
    Tells iso t calls (st.pruned iso now) (now.instant - days 30) where
  finite := h.finite
  seen conv seen := by
    obtain ⟨entry, member, tagged⟩ := seen
    exact h.seen conv ⟨entry, (List.mem_filter.mp member).1, tagged⟩
  count := h.count
  recent c hc late := (h.recent c hc (later.trans late)).prune late

/-! ### A run of calls -/

/-- The repeat rule as an answer gives it, at the clock `now` of its call. -/
def Repeats (t : FraudTag) (calls : List Told) (now : DateTime) (repeatedAcross : List String) :
    Prop :=
  ((reportsOf t calls).map fun c => c.2.counterpartyId).Nodup →
  3 ≤ ((reportsOf t calls).filter fun c => now.instant - days 7 ≤ c.1.instant).length →
  t.name ∈ repeatedAcross

/-- What is stored of an account after a run of calls, the last one at the clock `now`. -/
structure Remembers (iso : IsoFormat) (t : FraudTag) (calls : List Told) (st : AccountState F)
    (repeatedAcross : List String) (now : DateTime) : Prop where
  updated : st.lastUpdated = some (iso.isoformat now)
  stamp : parseIso iso (iso.isoformat now) = some now
  latest : ∀ c ∈ calls, c.1.instant ≤ now.instant
  reading : ∃ c ∈ calls, c.1 = now
  tells : Tells iso t calls st (now.instant - days 30)
  repeats : Repeats t calls now repeatedAcross

section

variable {clock : DateTime} {item : SignalItem} {profileId : String}
  {out : SignalsOutput (AccountState F)}

theorem Tells.repeats (h : Tells iso t calls st since) {now : DateTime}
    (later : since ≤ now.instant - days 7) : Repeats t calls now (repeatedTags iso now st.recent) := by
  intro reporters three
  apply repeated_of_noted three
  · exact reporters.sublist (List.filter_sublist.map _)
  · intro c hc
    obtain ⟨mine, late⟩ := List.mem_filter.mp hc
    exact h.recent c mine (later.trans (of_decide_eq_true late))
  · intro c hc
    exact of_decide_eq_true (List.mem_filter.mp hc).2

/-- One call: `prev` is what is stored and `since` how far back it remembers. -/
theorem Tells.answer {prev : Option (AccountState F)}
    (h : Tells iso t calls (prev.getD (AccountState.empty F)) since) (fresh : Fresh t calls item)
    (answered : (vendored F iso).processSignals clock profileId prev [] [item] = .ok out)
    {now : DateTime} (isNow : nowOf iso clock prev = now)
    (stamp : parseIso iso (iso.isoformat now) = some now) (notBefore : clock.instant ≤ now.instant)
    (later : since ≤ now.instant - days 30) :
    out.state.lastUpdated = some (iso.isoformat now) ∧
    Tells iso t (calls ++ [(clock, item)]) out.state (now.instant - days 30) ∧
    Repeats t (calls ++ [(clock, item)]) now out.repeatedAcross := by
  obtain ⟨repeated, state⟩ := vendored_answer iso answered
  rw [isNow] at repeated state
  have folded : Tells iso t (calls ++ [(clock, item)]) (foldedOf iso clock prev [item]) since := by
    simp only [foldedOf, List.foldl_cons, List.foldl_nil, isNow]
    exact (h.decayed now _).foldItem fresh stamp notBefore
  rw [List.nil_append] at repeated state
  refine ⟨by rw [state], ?_, ?_⟩
  · rw [state]
    exact folded.pruned later
  · -- the repeat rule is read off before the pruning
    rw [repeated]
    apply folded.repeats
    unfold days at later ⊢
    omega

theorem remembers_first (fresh : Fresh t [] item)
    (answered : (vendored F iso).processSignals clock profileId none [] [item] = .ok out)
    (stamp : parseIso iso (iso.isoformat clock) = some clock) :
    Remembers iso t [(clock, item)] out.state out.repeatedAcross clock := by
  have nothing : Tells iso t [] ((none : Option (AccountState F)).getD (AccountState.empty F))
      (clock.instant - days 30) := .empty
  have isNow : nowOf iso clock (none : Option (AccountState F)) = clock := rfl
  obtain ⟨updated, tells, repeats⟩ :=
    nothing.answer fresh answered isNow stamp (Int.le_refl _) (Int.le_refl _)
  exact ⟨updated, stamp, by simp, by simp, tells, repeats⟩

theorem Remembers.next {repeatedAcross : List String} {last : DateTime}
    (h : Remembers iso t calls st repeatedAcross last) (fresh : Fresh t calls item)
    (answered : (vendored F iso).processSignals clock profileId (some st) [] [item] = .ok out)
    (stamp : parseIso iso (iso.isoformat clock) = some clock) :
    ∃ now, Remembers iso t (calls ++ [(clock, item)]) out.state out.repeatedAcross now := by
  have stored : nowOf iso clock (some st) = pinClock clock (some last) := by
    simp only [nowOf, Option.getD_some, h.updated, Option.bind_some, h.stamp]
  by_cases back : clock.instant < last.instant
  -- the clock has gone back: the stored one stands
  · have isNow : nowOf iso clock (some st) = last := by simp [stored, pinClock, back]
    obtain ⟨updated, tells, repeats⟩ :=
      h.tells.answer fresh answered isNow h.stamp (Int.le_of_lt back) (Int.le_refl _)
    obtain ⟨c, hc, reading⟩ := h.reading
    refine ⟨last, updated, h.stamp, ?_, ⟨c, List.mem_append_left _ hc, reading⟩, tells, repeats⟩
    intro c hc
    rcases List.mem_append.mp hc with old | new
    · exact h.latest c old
    · rw [List.mem_singleton.mp new]
      exact Int.le_of_lt back
  -- the clock has gone on, and the window moves with it
  · have isNow : nowOf iso clock (some st) = clock := by simp [stored, pinClock, back]
    have forward : last.instant ≤ clock.instant := Int.not_lt.mp back
    obtain ⟨updated, tells, repeats⟩ :=
      h.tells.answer fresh answered isNow stamp (Int.le_refl _) (by omega)
    refine ⟨clock, updated, stamp, ?_, ⟨(clock, item), by simp, rfl⟩, tells, repeats⟩
    intro c hc
    rcases List.mem_append.mp hc with old | new
    · exact (h.latest c old).trans forward
    · rw [List.mem_singleton.mp new]

end

end DostReview.Engine
