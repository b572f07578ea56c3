import DostReview.Engine.Exact
import DostReview.Library.Fading

/-!
# An account as a ledger

What `process_signals` keeps of an account, in exact arithmetic: for every tag the number of
items that were counted, and what they weigh by the account's clock. No item's weight depends on
how many calls came after it, nor on when they came.
-/
namespace DostReview.Engine

open Risk Review

/-! ### Adding up and fading -/

@[ext] theorem TagState.ext {a b : TagState exactOps} (count : a.count = b.count) (w : a.w = b.w) :
    a = b := by
  cases a
  cases b
  simp_all

noncomputable instance : Zero (TagState exactOps) := ⟨⟨0, exactOps.lit 0⟩⟩

noncomputable instance : Add (TagState exactOps) :=
  ⟨fun a b => ⟨a.count + b.count, exactOps.add a.w b.w⟩⟩

theorem TagState.w_zero : (0 : TagState exactOps).w = (0 : ℝ) := Rat.cast_zero

theorem TagState.w_add (a b : TagState exactOps) : (a + b).w = (a.w + b.w : ℝ) := rfl

noncomputable instance : AddCommMonoid (TagState exactOps) where
  add_assoc a b c := TagState.ext (add_assoc _ _ _) (add_assoc (G := ℝ) _ _ _)
  zero_add a := TagState.ext (zero_add _) (by rw [TagState.w_add, TagState.w_zero, zero_add])
  add_zero a := TagState.ext (add_zero _) (by rw [TagState.w_add, TagState.w_zero, add_zero])
  add_comm a b := TagState.ext (add_comm _ _) (add_comm (G := ℝ) _ _)
  nsmul := nsmulRec

/-- The share of its weight that evidence keeps from one time to another. -/
noncomputable def share (tag : FraudTag) (earlier later : Time) : ℝ :=
  exactOps.halfPow ((daysBetween earlier later : ℝ) / tag.halfLife)

theorem ageDays_exact (now earlier : DateTime) :
    ageDays exactOps now earlier = (daysBetween earlier.instant now.instant : ℝ) := by
  have cast : exactOps.div (exactOps.lit (((now.instant - earlier.instant : ℤ) : ℚ) / 1000000))
      (exactOps.lit 86400) = (((now.instant - earlier.instant : ℤ) : ℝ) / 1000000 / 86400) := by
    simp only
    push_cast
    rfl
  rw [ageDays, cast, floor0_exact]
  rfl

theorem recencyWeight_exact (tag : FraudTag) (now earlier : DateTime) :
    recencyWeight exactOps (ageDays exactOps now earlier) tag =
      share tag earlier.instant now.instant := by
  rw [ageDays_exact, recencyWeight, share]
  by_cases old : (0 : ℝ) < daysBetween earlier.instant now.instant
  · simp [old]
  · have none : (daysBetween earlier.instant now.instant : ℝ) = 0 :=
      le_antisymm (not_lt.mp old) (daysBetween_nonneg _ _)
    simp [none]

theorem share_pos (tag : FraudTag) (earlier later : Time) : 0 < share tag earlier later :=
  Real.rpow_pos_of_pos (by norm_num) _

/-- Evidence is carried forward by the share that its tag keeps. -/
noncomputable def keepTag : Fading.Carry FraudTag Time (TagState exactOps) where
  carry tag t u :=
    { toFun := fun s => { s with w := exactOps.mul s.w (share tag t u) }
      map_zero' := TagState.ext rfl (by
        simp only [TagState.w_zero]
        exact zero_mul (share tag t u))
      map_add' := fun a b => TagState.ext rfl (add_mul (R := ℝ) _ _ _) }
  carry_self tag t x := TagState.ext rfl (by
    simp [share, daysBetween_self])
  carry_carry tag t u v x first second := TagState.ext rfl (by
    simp only [AddMonoidHom.coe_mk, ZeroHom.coe_mk, share]
    rw [mul_assoc, ← Real.rpow_add (by norm_num), ← add_div, daysBetween_add first second])

/-! ### Items as evidence -/

/-- One occurrence of a tag. -/
noncomputable def once : TagState exactOps := ⟨1, exactOps.lit 1⟩

section

variable (iso : IsoFormat)

/-- What an item adds: nothing if its tag is unknown or has been seen in its conversation, else one
occurrence of the tag, dated when it was created, or now if that lies ahead. -/
noncomputable def evidenceIn (now : DateTime) (st : AccountState exactOps) (item : SignalItem) :
    Option (Fading.Piece FraudTag Time (TagState exactOps)) :=
  (FraudTag.ofName item.tag).bind fun tag =>
    if tag ∈ (seenEntry exactOps st (keyOf item)).tags then none
    else some ⟨tag, min (createdOf iso now item).instant now.instant, once⟩

/-- What the items of a call add, one after another. -/
noncomputable def newEvidence (now : DateTime) :
    AccountState exactOps → List SignalItem → List (Fading.Piece FraudTag Time (TagState exactOps))
  | _, [] => []
  | st, item :: items =>
    (evidenceIn iso now st item).toList ++ newEvidence now (foldItem exactOps iso now st item) items

/-- A call of `process_signals`, at its clock. -/
structure SignalsCall where
  clock : DateTime
  signals : List SignalItem
  outcomes : List SignalItem

/-- The answer to the last call, and the evidence that every call so far has added. -/
structure Telling where
  answer : Option (SignalsOutput (AccountState exactOps)) := none
  ledger : List (Time × List (Fading.Piece FraudTag Time (TagState exactOps))) := []

def Telling.stored (x : Telling) : Option (AccountState exactOps) := x.answer.map (·.state)

/-- The evidence that a call adds. -/
noncomputable def Telling.adds (x : Telling) (c : SignalsCall) :
    List (Fading.Piece FraudTag Time (TagState exactOps)) :=
  let now := nowOf iso c.clock x.stored
  let st := x.stored.getD (.empty exactOps)
  newEvidence iso now (decayed exactOps now (st.lastUpdated.bind (parseIso iso)) st)
    (c.signals ++ c.outcomes)

/-- One more call, with the state that the last one answered. -/
noncomputable def Telling.tell (x : Telling) (c : SignalsCall) : Telling where
  answer := (processSignals exactOps iso c.clock x.stored c.signals c.outcomes).toOption
  ledger := x.ledger ++ [((nowOf iso c.clock x.stored).instant, x.adds iso c)]

noncomputable def tellAll (calls : List SignalsCall) : Telling := calls.foldl (Telling.tell iso) {}

end

/-- What evidence weighs by a time: each piece by the weight of its tag, and by the share that this
has kept since. -/
noncomputable def massAt (now : Time)
    (evidence : List (Fading.Piece FraudTag Time (TagState exactOps))) : ℝ :=
  (evidence.map fun e => (e.key.weight : ℝ) * share e.key e.date now).sum

/-! ### One call -/

section

variable {iso : IsoFormat} {now : DateTime} {st : AccountState exactOps}

theorem weigh_once (tag : FraudTag) (date later : Time) :
    keepTag.weigh later ⟨tag, date, once⟩ = (tag, ⟨1, share tag date later⟩) := by
  have one : exactOps.mul (exactOps.lit 1) (share tag date later) = share tag date later := by
    simp only [Rat.cast_one]
    exact one_mul (M := ℝ) _
  rw [Fading.Carry.weigh, keepTag]
  exact congrArg (fun w => (tag, (⟨1, w⟩ : TagState exactOps))) one

theorem bumpTag_add (age : ℝ) (tag : FraudTag) (tags : Dict FraudTag (TagState exactOps)) :
    bumpTag exactOps age tag tags = Tally.add tags (tag, ⟨1, recencyWeight exactOps age tag⟩) := rfl

theorem foldItem_evidence (item : SignalItem) :
    (foldItem exactOps iso now st item).fraudTagStates =
      ((evidenceIn iso now st item).toList.map (keepTag.weigh now.instant)).foldl Tally.add
        st.fraudTagStates := by
  cases named : FraudTag.ofName item.tag with
  | none => simp [foldItem, evidenceIn, named]
  | some tag =>
    by_cases seen : tag ∈ (seenEntry exactOps st (keyOf item)).tags
    · have nothing : evidenceIn iso now st item = none := by
        rw [evidenceIn, named, Option.bind_some, if_pos seen]
      rw [nothing]
      simp only [foldItem, named]
      rw [if_pos (by exact seen)]
      rfl
    · have counted : evidenceIn iso now st item =
          some ⟨tag, min (createdOf iso now item).instant now.instant, once⟩ := by
        rw [evidenceIn, named, Option.bind_some, if_neg seen]
      have aged : recencyWeight exactOps (ageDays exactOps now (createdOf iso now item)) tag =
          share tag (min (createdOf iso now item).instant now.instant) now.instant := by
        rw [recencyWeight_exact, share, share, daysBetween_min]
      rw [counted, Option.toList_some, List.map_singleton, weigh_once, ← aged]
      simp only [foldItem, named]
      rw [if_neg (by exact seen)]
      exact bumpTag_add _ tag _

theorem foldl_evidence (items : List SignalItem) :
    (items.foldl (foldItem exactOps iso now) st).fraudTagStates =
      ((newEvidence iso now st items).map (keepTag.weigh now.instant)).foldl Tally.add
        st.fraudTagStates := by
  induction items generalizing st with
  | nil => rfl
  | cons item items ih =>
    rw [List.foldl_cons, ih, newEvidence, List.map_append, List.foldl_append, foldItem_evidence]

/-- No evidence comes from after the clock, and each piece counts one. -/
theorem newEvidence_dated {items : List SignalItem}
    {e : Fading.Piece FraudTag Time (TagState exactOps)} (member : e ∈ newEvidence iso now st items) :
    e.date ≤ now.instant ∧ e.value = once := by
  induction items generalizing st with
  | nil => cases member
  | cons item items ih =>
    rcases List.mem_append.mp member with here | later
    · obtain ⟨tag, -, found⟩ := Option.bind_eq_some_iff.mp (Option.mem_toList.mp here)
      split at found
      · cases found
      · obtain rfl := Option.some.inj found
        exact ⟨min_le_right _ _, rfl⟩
    · exact ih later

/-- The stored tags, decayed to a later clock, are the totals carried to it. -/
theorem decayed_carried (last : Option DateTime) :
    (decayed exactOps now last st).fraudTagStates =
      Fading.Totals.carried keepTag ⟨last.map (·.instant), st.fraudTagStates⟩ now.instant := by
  have finite : loadTagStates exactOps st = st.fraudTagStates :=
    List.filter_eq_self.mpr fun _ _ => rfl
  cases last with
  | none => simp [decayed, decayTags, Fading.Totals.carried, finite]
  | some last =>
    simp only [decayed, decayTags, Fading.Totals.carried, finite, Option.map_some, keepTag,
      recencyWeight_exact]
    rfl

end

/-! ### All calls -/

/-- What `process_signals` answers, in full. -/
theorem processSignals_answer (F : FloatOps) (iso : IsoFormat) (clock : DateTime)
    (prev : Option (AccountState F)) (signals outcomes : List SignalItem) :
    let now := nowOf iso clock prev
    let folded := foldedOf iso clock prev (signals ++ outcomes)
    ∃ out, processSignals F iso clock prev signals outcomes = .ok out ∧
      out.riskScore = riskScore F folded.fraudTagStates (F.lit 14) ∧
      tierOf out.riskScore = .ok out.riskTier ∧ out.state = folded.pruned iso now := by
  have below := riskScore_lt F (foldedOf iso clock prev (signals ++ outcomes)).fraudTagStates (F.lit 14)
  obtain ⟨tier, found⟩ := map_tierOf below id
  rw [Except.map_id, id] at found
  refine ⟨_, congrArg (Except.map _) found, rfl, found, rfl⟩

theorem pinClock_le (clock : DateTime) (last : Option DateTime) :
    clock.instant ≤ (pinClock clock last).instant ∧
      ∀ l ∈ last, l.instant ≤ (pinClock clock last).instant := by
  cases last with
  | none => exact ⟨le_rfl, by simp⟩
  | some l =>
    simp only [pinClock, Option.mem_some_iff, forall_eq']
    split <;> omega

/-- The books after some calls, the latest of which was made at this clock: the stored tags are the
totals of the ledger, and they score what is answered. -/
structure Telling.Balanced (iso : IsoFormat) (calls : List SignalsCall) (x : Telling)
    (out : SignalsOutput (AccountState exactOps)) (now : DateTime) : Prop where
  answer : x.answer = some out
  updated : out.state.lastUpdated = some (iso.isoformat now)
  reading : ∃ c ∈ calls, c.clock = now
  latest : ∀ c ∈ calls, c.clock.instant ≤ now.instant
  ordered : Fading.Ordered x.ledger
  last : ∃ batches evidence, x.ledger = batches ++ [(now.instant, evidence)]
  totals : x.ledger.foldl (Fading.Totals.take keepTag) {} =
    ⟨some now.instant, out.state.fraudTagStates⟩
  score : out.riskScore = scoreOf (massOf exactOps out.state.fraudTagStates)
  tier : tierOf out.riskScore = .ok out.riskTier
  units : ∀ b ∈ x.ledger, ∀ e ∈ b.2, e.value = once

section

variable {iso : IsoFormat} {x : Telling} {calls : List SignalsCall} {c : SignalsCall}

/-- The clock that a Telling has come to, and its totals up to there. -/
structure Telling.Stands (iso : IsoFormat) (x : Telling) (last : Option DateTime) : Prop where
  read : (x.stored.getD (.empty exactOps)).lastUpdated.bind (parseIso iso) = last
  totals : x.ledger.foldl (Fading.Totals.take keepTag) {} =
    ⟨last.map (·.instant), (x.stored.getD (.empty exactOps)).fraudTagStates⟩
  ordered : Fading.Ordered x.ledger
  times : ∀ b ∈ x.ledger, ∃ l ∈ last, b.1 ≤ l.instant
  units : ∀ b ∈ x.ledger, ∀ e ∈ b.2, e.value = once

theorem Telling.Stands.tell {last : Option DateTime} (c : SignalsCall) (h : x.Stands iso last)
    (latest : ∀ c ∈ calls, ∃ l ∈ last, c.clock.instant ≤ l.instant)
    (reading : ∀ l ∈ last, ∃ c ∈ calls, c.clock = l) :
    ∃ out, Telling.Balanced iso (calls ++ [c]) (x.tell iso c) out (pinClock c.clock last) := by
  obtain ⟨out, ran, score, tier, state⟩ :=
    processSignals_answer exactOps iso c.clock x.stored c.signals c.outcomes
  have isNow : nowOf iso c.clock x.stored = pinClock c.clock last := by rw [nowOf, h.read]
  have tags : out.state.fraudTagStates =
      (foldedOf iso c.clock x.stored (c.signals ++ c.outcomes)).fraudTagStates := by
    rw [state]
    rfl
  have entry : (x.tell iso c).ledger =
      x.ledger ++ [((pinClock c.clock last).instant, x.adds iso c)] := by
    rw [Telling.tell, isNow]
  have adds : ∀ e ∈ x.adds iso c, e.date ≤ (pinClock c.clock last).instant ∧ e.value = once :=
    fun e member => isNow ▸ newEvidence_dated member
  obtain ⟨reached, onward⟩ := pinClock_le c.clock last
  refine ⟨out, ?_, ?_, ?_, ?_, ?_, ⟨_, _, entry⟩, ?_, ?_, tier, ?_⟩
  · rw [Telling.tell, ran]
    rfl
  · rw [state, isNow]
    rfl
  · -- the clock is that of the call, or the stored one
    cases last with
    | none => exact ⟨c, by simp, rfl⟩
    | some l =>
      simp only [pinClock]
      split
      · obtain ⟨c', member, same⟩ := reading l rfl
        exact ⟨c', List.mem_append_left _ member, same⟩
      · exact ⟨c, by simp, rfl⟩
  · intro c' member
    rcases List.mem_append.mp member with old | new
    · obtain ⟨l, known, before⟩ := latest c' old
      exact before.trans (onward l known)
    · rw [List.mem_singleton.mp new]
      exact reached
  · rw [entry]
    refine h.ordered.append (fun b member => ?_) fun e member => (adds e member).1
    obtain ⟨l, known, before⟩ := h.times b member
    exact before.trans (onward l known)
  · rw [entry, List.foldl_append, h.totals, tags, foldedOf, foldl_evidence, decayed_carried, isNow,
      h.read, Telling.adds, isNow, h.read]
    rfl
  · rw [score, riskScore_exact, tags]
  · intro b member
    rw [entry] at member
    rcases List.mem_append.mp member with old | new
    · exact h.units b old
    · rw [List.mem_singleton.mp new]
      exact fun e within => (adds e within).2

theorem Telling.Stands.nothing : Telling.Stands iso {} none where
  read := rfl
  totals := rfl
  ordered := ⟨List.Pairwise.nil, by simp⟩
  times := by simp
  units := by simp

/-- The books are balanced for the next call. -/
theorem Telling.Balanced.stands {out : SignalsOutput (AccountState exactOps)} {now : DateTime}
    (h : Telling.Balanced iso calls x out now)
    (stamps : ∀ c ∈ calls, parseIso iso (iso.isoformat c.clock) = some c.clock) :
    x.Stands iso (some now) := by
  have stored : x.stored.getD (.empty exactOps) = out.state := by rw [Telling.stored, h.answer]; rfl
  refine ⟨?_, ?_, h.ordered, fun b member => ⟨now, rfl, ?_⟩, h.units⟩
  · obtain ⟨c, member, rfl⟩ := h.reading
    rw [stored, h.updated]
    exact stamps c member
  · rw [h.totals, stored]
    rfl
  · obtain ⟨batches, evidence, ledger⟩ := h.last
    have times := h.ordered.times
    rw [ledger] at member times
    rcases List.mem_append.mp member with old | new
    · exact (List.pairwise_append.mp times).2.2 b old _ List.mem_cons_self
    · rw [List.mem_singleton.mp new]

theorem tellAll_append (calls : List SignalsCall) (c : SignalsCall) :
    tellAll iso (calls ++ [c]) = (tellAll iso calls).tell iso c := by
  rw [tellAll, List.foldl_append]
  rfl

/-- After any calls, the books are balanced. -/
theorem tellAll_balanced (some_ : calls ≠ [])
    (stamps : ∀ c ∈ calls, parseIso iso (iso.isoformat c.clock) = some c.clock) :
    ∃ out now, Telling.Balanced iso calls (tellAll iso calls) out now := by
  induction calls using List.reverseRecOn with
  | nil => exact absurd rfl some_
  | append_singleton calls c ih =>
    rw [tellAll_append]
    by_cases first : calls = []
    · subst first
      have clear : ∀ c' ∈ ([] : List SignalsCall), ∃ l ∈ (none : Option DateTime),
          c'.clock.instant ≤ l.instant := by simp
      obtain ⟨out, balanced⟩ := Telling.Stands.nothing.tell c clear (by simp)
      exact ⟨out, _, balanced⟩
    · obtain ⟨out, now, before⟩ := ih first fun c' member => stamps c' (List.mem_append_left _ member)
      have stands := before.stands fun c' member => stamps c' (List.mem_append_left _ member)
      obtain ⟨out', balanced⟩ := stands.tell c
        (fun c' member => ⟨now, rfl, before.latest c' member⟩)
        (by rintro l ⟨⟩; exact before.reading)
      exact ⟨out', _, balanced⟩

end

/-! ### What the ledger comes to -/

/-- The stored weight of a tag, 0 when absent. -/
noncomputable def AccountState.weightOf (st : AccountState exactOps) (t : FraudTag) : ℝ :=
  ((Dict.get? st.fraudTagStates t).getD 0).w

/-- The weighted part of a tag in the mass. -/
noncomputable def weighted (tag : FraudTag) : TagState exactOps →+ ℝ where
  toFun s := (tag.weight : ℝ) * s.w
  map_zero' := by rw [TagState.w_zero, mul_zero]
  map_add' a b := by rw [TagState.w_add, mul_add]

section

variable {evidence : List (Fading.Piece FraudTag Time (TagState exactOps))} (now : Time)

theorem massOf_weighed (units : ∀ e ∈ evidence, e.value = once) :
    massOf exactOps (keepTag.weighed now evidence) = massAt now evidence := by
  have parts := Tally.sum_foldl_add weighted [] (evidence.map (keepTag.weigh now))
  rw [massOf_exact, massAt]
  refine parts.trans ?_
  rw [List.map_nil, List.sum_nil, zero_add, List.map_map]
  congr 1
  refine List.map_congr_left fun e member => ?_
  have unit : e = ⟨e.key, e.date, once⟩ := by rw [← units e member]
  rw [Function.comp_apply, unit, weigh_once]
  rfl

theorem TagState.sum_map_once {α : Type} (f : α → ℝ) (l : List α) :
    (l.map fun a => (⟨1, f a⟩ : TagState exactOps)).sum = ⟨l.length, (l.map f).sum⟩ := by
  induction l with
  | nil => exact TagState.ext rfl TagState.w_zero
  | cons a l ih =>
    rw [List.map_cons, List.sum_cons, ih]
    exact TagState.ext (Nat.add_comm _ _) rfl

theorem get?_weighed (units : ∀ e ∈ evidence, e.value = once) (t : FraudTag) :
    (Dict.get? (keepTag.weighed now evidence) t).getD 0 =
      ⟨evidence.countP (·.key = t),
        ((evidence.filter (·.key = t)).map fun e => share t e.date now).sum⟩ := by
  have whole := Tally.get?_foldl_add [] (evidence.map (keepTag.weigh now)) t
  rw [Dict.get?, Option.getD_none, zero_add, List.filter_map, List.map_map] at whole
  have mine : (fun e : FraudTag × TagState exactOps => decide (e.1 = t)) ∘ keepTag.weigh now =
      fun e => decide (e.key = t) := rfl
  have terms : (evidence.filter (·.key = t)).map (Prod.snd ∘ keepTag.weigh now) =
      (evidence.filter (·.key = t)).map fun e => ⟨1, share t e.date now⟩ := by
    refine List.map_congr_left fun e member => ?_
    obtain ⟨within, same⟩ := List.mem_filter.mp member
    have unit : e = ⟨t, e.date, once⟩ := by rw [← units e within, ← of_decide_eq_true same]
    rw [Function.comp_apply, unit, weigh_once]
  rw [Fading.Carry.weighed, whole, mine, terms, TagState.sum_map_once,
    List.countP_eq_length_filter]

end

variable {iso : IsoFormat} {calls : List SignalsCall}

theorem Telling.Balanced.weighed {x : Telling} {out : SignalsOutput (AccountState exactOps)}
    {now : DateTime} (h : Telling.Balanced iso calls x out now) :
    out.state.fraudTagStates = keepTag.weighed now.instant (x.ledger.flatMap Prod.snd) := by
  obtain ⟨batches, evidence, ledger⟩ := h.last
  have sums := congrArg Fading.Totals.sums h.totals
  have ordered := h.ordered
  rw [ledger] at sums ordered ⊢
  exact sums.symm.trans (Fading.Totals.sums_foldl_take ordered)

theorem Telling.Balanced.all_once {x : Telling} {out : SignalsOutput (AccountState exactOps)}
    {now : DateTime} (h : Telling.Balanced iso calls x out now) :
    ∀ e ∈ x.ledger.flatMap Prod.snd, e.value = once := by
  intro e member
  obtain ⟨b, within, here⟩ := List.mem_flatMap.mp member
  exact h.units b within e here

/-- Whatever calls there were, the last answer is what the single pieces of evidence come to by
the latest clock: their number and their weights under every tag, and the score of their mass. -/
theorem account_of_ledger (some_ : calls ≠ [])
    (stamps : ∀ c ∈ calls, parseIso iso (iso.isoformat c.clock) = some c.clock) :
    ∃ out now, (tellAll iso calls).answer = some out ∧
      (∃ c ∈ calls, c.clock.instant = now) ∧ (∀ c ∈ calls, c.clock.instant ≤ now) ∧
      let evidence := (tellAll iso calls).ledger.flatMap Prod.snd
      out.riskScore = scoreOf (massAt now evidence) ∧
        ∀ t, out.state.count t = evidence.countP (·.key = t) ∧
          out.state.weightOf t =
            ((evidence.filter (·.key = t)).map fun e => share t e.date now).sum := by
  obtain ⟨out, now, balanced⟩ := tellAll_balanced some_ stamps
  obtain ⟨c, member, reading⟩ := balanced.reading
  refine ⟨out, now.instant, balanced.answer, ⟨c, member, congrArg _ reading⟩, balanced.latest, ?_,
    fun t => ?_⟩
  · rw [balanced.score, balanced.weighed, massOf_weighed _ balanced.all_once]
  · have total := get?_weighed now.instant balanced.all_once t
    rw [← balanced.weighed] at total
    refine ⟨?_, ?_⟩
    · refine Eq.trans ?_ (congrArg TagState.count total)
      rw [AccountState.count]
      cases Dict.get? out.state.fraudTagStates t <;> rfl
    · exact congrArg TagState.w total

/-- ISO timestamps of two days a week apart. -/
def weekIso : IsoFormat where
  fromisoformat s :=
    if s = "1970-01-01T00:00:00+00:00" then some (0, some 0)
    else if s = "1970-01-08T00:00:00+00:00" then some (days 7, some 0)
    else none
  isoformat t := if t.instant = 0 then "1970-01-01T00:00:00+00:00" else "1970-01-08T00:00:00+00:00"

/-- A money ask. -/
def askFirst : SignalsCall where
  clock := ⟨0, 0⟩
  signals := [{ tag := "money_ask_no_milestone", conversationId := some "c", counterpartyId := none }]
  outcomes := []

/-- A week later a fee escalation in another conversation, and the money ask once more. -/
def feeLater : SignalsCall where
  clock := ⟨days 7, 0⟩
  signals :=
    [{ tag := "money_ask_no_milestone", conversationId := some "c", counterpartyId := none },
     { tag := "fee_escalation", conversationId := some "d", counterpartyId := none }]
  outcomes := []

theorem askThenFee_stamped : ∀ c ∈ [askFirst, feeLater],
    parseIso weekIso (weekIso.isoformat c.clock) = some c.clock := by
  decide +kernel

/-- The state between the two calls. -/
theorem stored_askFirst : ∃ out, (tellAll weekIso [askFirst]).answer = some out ∧
    out.state.lastUpdated = some "1970-01-01T00:00:00+00:00" ∧
    out.state.convSeen = [("c", ⟨[.moneyAskNoMilestone], some "1970-01-01T00:00:00+00:00"⟩)] := by
  obtain ⟨out, ran, -, -, state⟩ :=
    processSignals_answer exactOps weekIso askFirst.clock none askFirst.signals []
  have answer : (tellAll weekIso [askFirst]).answer = some out := congrArg Except.toOption ran
  have money : FraudTag.ofName "money_ask_no_milestone" = some .moneyAskNoMilestone := by decide
  have kept : within weekIso 180 ⟨0, 0⟩ (some "1970-01-01T00:00:00+00:00") = true := by
    decide +kernel
  have stamp : weekIso.isoformat ⟨0, 0⟩ = "1970-01-01T00:00:00+00:00" := rfl
  refine ⟨out, answer, by rw [state]; rfl, ?_⟩
  rw [state]
  simp [AccountState.pruned, foldedOf, nowOf, askFirst, AccountState.empty, decayed, foldItem, money,
    seenEntry, Dict.get?, Dict.set, pinClock, pruneSeen, stamp, kept]

theorem ledger_askThenFee : (tellAll weekIso [askFirst, feeLater]).ledger.flatMap Prod.snd =
    [⟨.moneyAskNoMilestone, 0, once⟩, ⟨.feeEscalation, days 7, once⟩] := by
  obtain ⟨out, answer, last, seen⟩ := stored_askFirst
  have asked : parseIso weekIso "1970-01-01T00:00:00+00:00" = some ⟨0, 0⟩ := by decide +kernel
  have money : FraudTag.ofName "money_ask_no_milestone" = some .moneyAskNoMilestone := by decide
  have fee : FraudTag.ofName "fee_escalation" = some .feeEscalation := by decide
  have first : (tellAll weekIso [askFirst]).ledger.flatMap Prod.snd =
      [⟨.moneyAskNoMilestone, 0, once⟩] := by
    simp [tellAll, Telling.tell, Telling.adds, newEvidence, askFirst, evidenceIn, money,
      Telling.stored, nowOf, AccountState.empty, seenEntry, decayed, createdOf, Dict.get?,
      pinClock]
  -- the money ask has been seen in its conversation
  have second : (tellAll weekIso [askFirst]).adds weekIso feeLater =
      [⟨.feeEscalation, days 7, once⟩] := by
    simp [Telling.adds, Telling.stored, answer, newEvidence, feeLater, evidenceIn, money, fee, nowOf,
      last, seen, seenEntry, decayed, createdOf, asked, keyOf, foldItem, Dict.get?, Dict.set,
      pinClock, days]
  rw [show [askFirst, feeLater] = [askFirst] ++ [feeLater] from rfl, tellAll_append, Telling.tell,
    List.flatMap_append, first, List.flatMap_singleton, second]
  rfl

/-- The money ask is counted once and has lost half of its weight, the fee nothing. -/
theorem account_of_askThenFee : ∃ out, (tellAll weekIso [askFirst, feeLater]).answer = some out ∧
    out.riskScore = scoreOf 7 ∧ out.state.count .moneyAskNoMilestone = 1 ∧
    out.state.weightOf .moneyAskNoMilestone = 1 / 2 := by
  obtain ⟨out, now, answer, ⟨c, member, reading⟩, latest, score, totals⟩ :=
    account_of_ledger (List.cons_ne_nil askFirst [feeLater]) askThenFee_stamped
  obtain rfl : days 7 = now := by
    have order : days 7 ≤ now := latest feeLater (by simp)
    rcases List.mem_pair.mp member with rfl | rfl
    · rw [← reading] at order
      exact absurd order (by decide)
    · exact reading
  have week : daysBetween (K := ℝ) 0 (days 7) = 7 := by
    norm_num [daysBetween, daysSince, days]
  have none : daysBetween (K := ℝ) (days 7) (days 7) = 0 := daysBetween_self _
  rw [ledger_askThenFee] at score
  have total := totals .moneyAskNoMilestone
  rw [ledger_askThenFee] at total
  have half : FraudTag.moneyAskNoMilestone.halfLife = 7 := rfl
  refine ⟨out, answer, score.trans (congrArg scoreOf ?_), total.1, total.2.trans ?_⟩
  · norm_num [massAt, share, week, none, half, FraudTag.weight]
  · have other : FraudTag.feeEscalation ≠ .moneyAskNoMilestone := by decide
    norm_num [share, week, half, List.filter, other]

/-! ### What raises a score and what lowers it -/

/-- The score that has been answered last, 0 before the first call. -/
def Telling.score (x : Telling) : ℚ := (x.answer.map (·.riskScore)).getD 0

/-- No item says that a human has cleared the account. -/
def SignalsCall.Uncleared (c : SignalsCall) : Prop :=
  ∀ item ∈ c.signals ++ c.outcomes, item.tag ≠ FraudTag.clearedByReview.name

theorem share_anti (tag : FraudTag) (date : Time) {now later : Time} (order : now ≤ later) :
    share tag date later ≤ share tag date now := by
  apply Real.rpow_le_rpow_of_exponent_ge (by norm_num) (by norm_num)
  have half : (0 : ℝ) ≤ tag.halfLife := by exact_mod_cast tag.halfLife_pos.le
  apply div_le_div_of_nonneg_right _ half
  rcases le_total date now with past | future
  · rw [← daysBetween_add past order]
    linarith [daysBetween_nonneg (K := ℝ) now later]
  · rw [daysBetween_of_ge future]
    exact daysBetween_nonneg _ _

theorem FraudTag.weight_nonneg {t : FraudTag} (other : t ≠ .clearedByReview) : 0 ≤ t.weight := by
  cases t <;> first | exact absurd rfl other | norm_num [FraudTag.weight]

section

variable {evidence new : List (Fading.Piece FraudTag Time (TagState exactOps))} {now later : Time}

variable (evidence new now) in
theorem massAt_append :
    massAt now (evidence ++ new) = massAt now evidence + massAt now new := by
  rw [massAt, List.map_append, List.sum_append]
  rfl

theorem massAt_nonneg (uncleared : ∀ e ∈ evidence, e.key ≠ .clearedByReview) (now : Time) :
    0 ≤ massAt now evidence := by
  refine List.sum_nonneg fun x member => ?_
  obtain ⟨e, within, rfl⟩ := List.mem_map.mp member
  exact mul_nonneg (by exact_mod_cast FraudTag.weight_nonneg (uncleared e within))
    (share_pos _ _ _).le

theorem massAt_anti (uncleared : ∀ e ∈ evidence, e.key ≠ .clearedByReview) (order : now ≤ later) :
    massAt later evidence ≤ massAt now evidence := by
  refine List.sum_le_sum fun e member => ?_
  have weight : (0 : ℝ) ≤ e.key.weight := by
    exact_mod_cast FraudTag.weight_nonneg (uncleared e member)
  exact mul_le_mul_of_nonneg_left (share_anti _ _ order) weight

end

theorem newEvidence_append (now : DateTime) (st : AccountState exactOps)
    (items more : List SignalItem) :
    newEvidence iso now st (items ++ more) = newEvidence iso now st items ++
      newEvidence iso now (items.foldl (foldItem exactOps iso now) st) more := by
  induction items generalizing st with
  | nil => rfl
  | cons item items ih =>
    rw [List.cons_append, newEvidence, newEvidence, ih, List.append_assoc, List.foldl_cons]

theorem newEvidence_uncleared (iso : IsoFormat) (now : DateTime) (st : AccountState exactOps)
    {items : List SignalItem}
    (uncleared : ∀ item ∈ items, item.tag ≠ FraudTag.clearedByReview.name) :
    ∀ e ∈ newEvidence iso now st items, e.key ≠ .clearedByReview := by
  induction items generalizing st with
  | nil => simp [newEvidence]
  | cons item items ih =>
    obtain ⟨first, later⟩ := List.forall_mem_cons.mp uncleared
    intro e member
    rcases List.mem_append.mp member with here | after
    · obtain ⟨tag, named, found⟩ := Option.bind_eq_some_iff.mp (Option.mem_toList.mp here)
      split at found
      · cases found
      · obtain rfl := Option.some.inj found
        rintro rfl
        exact first (FraudTag.ofName_eq.mp named)
    · exact ih _ later e after

theorem tellAll_uncleared (uncleared : ∀ c ∈ calls, c.Uncleared) :
    ∀ e ∈ (tellAll iso calls).ledger.flatMap Prod.snd, e.key ≠ .clearedByReview := by
  induction calls using List.reverseRecOn with
  | nil => simp [tellAll]
  | append_singleton calls c ih =>
    intro e member
    rw [tellAll_append, Telling.tell, List.flatMap_append, List.mem_append] at member
    rcases member with old | new
    · exact ih (fun c' within => uncleared c' (List.mem_append_left _ within)) e old
    · rw [List.flatMap_singleton] at new
      exact newEvidence_uncleared iso _ _ (uncleared c (by simp)) e new

/-- The score of a ledger is that of its mass by the latest clock. -/
theorem Telling.Balanced.score_eq {x : Telling} {out : SignalsOutput (AccountState exactOps)}
    {now : DateTime} (h : Telling.Balanced iso calls x out now) :
    x.score = scoreOf (massAt now.instant (x.ledger.flatMap Prod.snd)) := by
  rw [Telling.score, h.answer, ← massOf_weighed _ h.all_once, ← h.weighed, ← h.score]
  rfl

theorem Telling.Balanced.unique {x x' : Telling} {calls' : List SignalsCall}
    {out out' : SignalsOutput (AccountState exactOps)} {now now' : DateTime}
    (h : Telling.Balanced iso calls x out now) (h' : Telling.Balanced iso calls' x' out' now')
    (clocks : calls.map (·.clock) = calls'.map (·.clock)) : now.instant = now'.instant := by
  obtain ⟨c, member, rfl⟩ := h.reading
  obtain ⟨c', member', rfl⟩ := h'.reading
  have there : c.clock ∈ calls'.map (·.clock) := clocks ▸ List.mem_map_of_mem member
  have here : c'.clock ∈ calls.map (·.clock) := clocks ▸ List.mem_map_of_mem member'
  obtain ⟨d, within, same⟩ := List.mem_map.mp there
  obtain ⟨d', within', same'⟩ := List.mem_map.mp here
  refine le_antisymm ?_ ?_
  · rw [← same]
    exact h'.latest d within
  · rw [← same']
    exact h.latest d' within'

variable (iso) in
theorem Telling.adds_more (x : Telling) (c : SignalsCall) (more : List SignalItem) :
    ∃ now st, x.adds iso { c with outcomes := c.outcomes ++ more } =
      x.adds iso c ++ newEvidence iso now st more := by
  simp only [Telling.adds, ← List.append_assoc, newEvidence_append]
  exact ⟨_, _, rfl⟩

/-- A call that counts nothing new never raises the score, and more outcomes in a call never lower
it, unless one of them clears the account. -/
theorem risk_fades_and_grows {c : SignalsCall} {more : List SignalItem}
    (stamps : ∀ c' ∈ calls ++ [c], parseIso iso (iso.isoformat c'.clock) = some c'.clock)
    (uncleared : ∀ c' ∈ calls ++ [c], c'.Uncleared)
    (uncleared' : ∀ item ∈ more, item.tag ≠ FraudTag.clearedByReview.name) :
    ((tellAll iso calls).adds iso c = [] →
      (tellAll iso (calls ++ [c])).score ≤ (tellAll iso calls).score) ∧
    (tellAll iso (calls ++ [c])).score ≤
      (tellAll iso (calls ++ [{ c with outcomes := c.outcomes ++ more }])).score := by
  have nonempty : ∀ c : SignalsCall, calls ++ [c] ≠ [] := by simp
  obtain ⟨out, now, balanced⟩ := tellAll_balanced (nonempty c) stamps
  have ledger : (tellAll iso (calls ++ [c])).ledger.flatMap Prod.snd =
      (tellAll iso calls).ledger.flatMap Prod.snd ++ (tellAll iso calls).adds iso c := by
    rw [tellAll_append, Telling.tell, List.flatMap_append, List.flatMap_singleton]
  have before : ∀ e ∈ (tellAll iso calls).ledger.flatMap Prod.snd, e.key ≠ .clearedByReview :=
    tellAll_uncleared fun c' member => uncleared c' (List.mem_append_left _ member)
  constructor
  · intro silent
    rw [balanced.score_eq, ledger, silent, List.append_nil]
    by_cases first : calls = []
    · subst first
      exact scoreOf_zero.le
    · obtain ⟨out', now', earlier⟩ := tellAll_balanced first fun c' member =>
        stamps c' (List.mem_append_left _ member)
      rw [earlier.score_eq]
      obtain ⟨c', member, reading⟩ := earlier.reading
      have order : now'.instant ≤ now.instant := reading ▸ balanced.latest c' (by simp [member])
      exact scoreOf_mono (massAt_anti before order)
  · obtain ⟨out', now', balanced'⟩ := tellAll_balanced
      (nonempty { c with outcomes := c.outcomes ++ more }) (by
        intro c' member
        rcases List.mem_append.mp member with old | new
        · exact stamps c' (List.mem_append_left _ old)
        · rw [List.mem_singleton.mp new]
          exact stamps c (by simp))
    have same : now.instant = now'.instant := balanced.unique balanced' (by simp)
    obtain ⟨at_, st, grown⟩ := (tellAll iso calls).adds_more iso c more
    have least := massAt_nonneg (newEvidence_uncleared iso at_ st uncleared') now.instant
    rw [balanced.score_eq, balanced'.score_eq, ← same, ledger, tellAll_append, Telling.tell,
      List.flatMap_append, List.flatMap_singleton, grown, ← List.append_assoc,
      massAt_append (_ ++ _)]
    apply scoreOf_mono
    linarith

/-- A call with nothing in it lets the score fade, and a confirmed fraud does not lower it. -/
theorem askThenFee_fades_and_grows :
    let silent : SignalsCall := ⟨⟨days 7, 0⟩, [], []⟩
    let fraud : SignalItem :=
      { tag := "confirmed_fraud", conversationId := none, counterpartyId := none }
    (tellAll weekIso [askFirst, feeLater, silent]).score ≤
        (tellAll weekIso [askFirst, feeLater]).score ∧
      (tellAll weekIso [askFirst, feeLater, silent]).score ≤
        (tellAll weekIso [askFirst, feeLater, { silent with outcomes := [fraud] }]).score := by
  intro silent fraud
  have stamps : ∀ c ∈ [askFirst, feeLater] ++ [silent],
      parseIso weekIso (weekIso.isoformat c.clock) = some c.clock := by
    intro c member
    rcases List.mem_append.mp member with old | new
    · exact askThenFee_stamped c old
    · rw [List.mem_singleton.mp new]
      exact askThenFee_stamped feeLater (by simp)
  have uncleared : ∀ c ∈ [askFirst, feeLater] ++ [silent], c.Uncleared := by
    simp only [SignalsCall.Uncleared]
    decide
  have both := risk_fades_and_grows stamps uncleared (show ∀ item ∈ [fraud], _ by decide)
  exact ⟨both.1 rfl, both.2⟩

end DostReview.Engine
