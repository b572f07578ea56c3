import DostReview.Risk.OnFile

/-!
# The fraud tags, declaratively

What each tag means as a statement about the records of one session, and that ingesting
the records one at a time computes it: the stored state mirrors the history it has seen,
and a call fires exactly the tags its record triggers for the first time.
-/
namespace DostReview.Risk

open Locking Engine

/-! ### The definitions -/

/-- `has(i, x)`: the record carries the signal above the floor its name has. -/
def has (r : SignalRecord) (name : String) : Bool :=
  r.signals.any fun s =>
    s.name = name ∧ s.confidence.atLeast (if name ∈ stateSeeding then noiseFloor else minConfidence)

/-- `context.dealStage`, when it is a string. -/
def dealStage (r : SignalRecord) : Option String :=
  match Dict.get? r.context "dealStage" with
  | some (.str s) => some s
  | _ => none

/-- `context.dealStage` is a string, null or absent. -/
def PlainStage (r : SignalRecord) : Prop :=
  match Dict.get? r.context "dealStage" with
  | some (.str _) => True
  | some .null => True
  | none => True
  | _ => False

/-- Some record of the history names one of the stages. -/
def Reached (history : List SignalRecord) (stages : List String) : Prop :=
  ∃ q ∈ history, ∃ d ∈ stages, dealStage q = some d

def firstStage (history : List SignalRecord) (stage : String) : Option SignalRecord :=
  history.find? fun q => dealStage q = some stage

def firstAsk (history : List SignalRecord) (sender : String) : Option SignalRecord :=
  history.find? fun q => q.srcProfileId = sender ∧ has q "money_ask"

/-- The turn of the record that ends the history: its own index, or its place. -/
def turnIn (history : List SignalRecord) (r : SignalRecord) : ℤ :=
  ((Dict.get? r.context "turnIndex").bind Json.asInt).getD history.length

/-- The tags that the last record of a history establishes for its sender. -/
inductive Triggers (iso : IsoFormat) (history : List SignalRecord) (r : SignalRecord) :
    FraudTag → Prop
  | moneyAskNoMilestone : has r "money_ask" →
      ¬Reached history ["meet_scheduled", "ledger_credit", "handover_confirmed"] →
      Triggers iso history r .moneyAskNoMilestone
  | identityThenMoney : has r "money_ask" →
      ¬Reached history ["meet_scheduled", "ledger_credit", "handover_confirmed"] →
      (∃ q ∈ history, q.srcProfileId = r.srcProfileId ∧ has q "identity_claim") →
      Triggers iso history r .identityThenMoney
  | feeEscalation (ask credit : SignalRecord) (asked credited now : DateTime) : has r "money_ask" →
      firstAsk history r.srcProfileId = some ask → firstStage history "ledger_credit" = some credit →
      parseIso iso ask.ts = some asked → parseIso iso credit.ts = some credited →
      parseIso iso r.ts = some now → asked.instant < credited.instant →
      credited.instant ≤ now.instant → Triggers iso history r .feeEscalation
  | jumpedDeposit (small : SignalRecord) (credited now : DateTime) :
      (has r "payee_asked_to_act" ∨ has r "money_ask") →
      firstStage history "ledger_credit_small" = some small →
      parseIso iso small.ts = some credited → parseIso iso r.ts = some now →
      0 ≤ now.instant - credited.instant → now.instant - credited.instant ≤ 900 * 1000000 →
      Triggers iso history r .jumpedDeposit
  | channelShiftEarly : has r "channel_shift_request" → turnIn history r ≤ 2 →
      Triggers iso history r .channelShiftEarly
  | contactSharePreMilestone : has r "contact_share" →
      ¬Reached history ["price_agreed", "meet_scheduled", "ledger_credit", "handover_confirmed"] →
      Triggers iso history r .contactSharePreMilestone
  | categoricalBlock : (r.verdict = "reject" ∧ r.category ∈ categorical ∨ has r "categorical_block") →
      Triggers iso history r .categoricalBlock

/-- The tag holds of the sender in a session: one of the sender's records establishes it,
given the records up to and including that one. -/
def Declared (iso : IsoFormat) (records : List SignalRecord) (tag : FraudTag) (sender : String) :
    Prop :=
  ∃ i r, records[i]? = some r ∧ r.srcProfileId = sender ∧
    Triggers iso (records.take (i + 1)) r tag

theorem declared_append {iso : IsoFormat} (records : List SignalRecord) (r : SignalRecord)
    (tag : FraudTag) (sender : String) :
    Declared iso (records ++ [r]) tag sender ↔
      Declared iso records tag sender ∨
        r.srcProfileId = sender ∧ Triggers iso (records ++ [r]) r tag := by
  constructor
  · rintro ⟨i, q, there, src, fires⟩
    -- the record that triggers is an old one or the last
    rcases Nat.lt_trichotomy i records.length with lt | eq | gt
    · rw [List.getElem?_append_left lt] at there
      rw [List.take_append_of_le_length lt] at fires
      exact .inl ⟨i, q, there, src, fires⟩
    · subst eq
      rw [List.getElem?_concat_length] at there
      cases there
      rw [List.take_of_length_le (by simp)] at fires
      exact .inr ⟨src, fires⟩
    · rw [List.getElem?_eq_none (by simp; omega)] at there
      cases there
  · rintro (⟨i, q, there, src, fires⟩ | ⟨src, fires⟩)
    · have lt : i < records.length := (List.getElem?_eq_some_iff.mp there).1
      refine ⟨i, q, ?_, src, ?_⟩
      · rw [List.getElem?_append_left lt, there]
      · rwa [List.take_append_of_le_length lt]
    · refine ⟨records.length, r, List.getElem?_concat_length, src, ?_⟩
      rwa [List.take_of_length_le (by simp)]

/-! ### What the mapper keeps of a record -/

def milestonesOf (r : SignalRecord) : List String :=
  impliedMilestones ((dealStage r).filter (· ∈ milestoneStages))

/-- The event of a record whose stage is plain. -/
abbrev plainEvent (r : SignalRecord) : Event := eventOf r ((dealStage r).filter (· ∈ milestoneStages))

theorem mapped_of_plain {r : SignalRecord} (plain : PlainStage r) :
    toConversationEvent r = .ok (plainEvent r) := by
  unfold PlainStage at plain
  unfold toConversationEvent plainEvent dealStage
  cases stage : Dict.get? r.context "dealStage" with
  | none => rfl
  | some j =>
    rw [stage] at plain
    cases j with
    | str s =>
      by_cases known : s ∈ milestoneStages <;>
        simp [milestoneOf, Except.map, Option.filter, known]
    | null => rfl
    | bool b => exact plain.elim
    | int i => exact plain.elim
    | float x => exact plain.elim
    | arr xs => exact plain.elim
    | obj xs => exact plain.elim

theorem milestonesOf_some {r : SignalRecord} {d : String} (stage : dealStage r = some d) :
    milestonesOf r = if d ∈ milestoneStages then impliedMilestones (some d) else [] := by
  unfold milestonesOf
  rw [stage]
  by_cases known : d ∈ milestoneStages <;> simp [Option.filter, known, impliedMilestones]

/-- Above the first rung, a record brings the milestone it names and no other. -/
theorem mem_milestonesOf {r : SignalRecord} {m : String}
    (rung : m ∈ ["meet_scheduled", "ledger_credit", "ledger_credit_small", "handover_confirmed"]) :
    m ∈ milestonesOf r ↔ dealStage r = some m := by
  -- checked on each of the known stages
  have implied : ∀ d ∈ milestoneStages, (m ∈ impliedMilestones (some d) ↔ d = m) := by
    revert m
    decide
  have stage : m ∈ milestoneStages := by
    revert m
    decide
  cases named : dealStage r with
  | none => simp [milestonesOf, named, impliedMilestones]
  | some d =>
    rw [milestonesOf_some named, Option.some.injEq]
    by_cases known : d ∈ milestoneStages
    · rw [if_pos known, implied d known]
    · rw [if_neg known]
      exact iff_of_false (by simp) fun same => known (same ▸ stage)

/-- Every rung of the ladder brings the first. -/
theorem price_mem_milestonesOf {r : SignalRecord} :
    "price_agreed" ∈ milestonesOf r ↔
      ∃ d ∈ ["price_agreed", "meet_scheduled", "ledger_credit", "handover_confirmed"],
        dealStage r = some d := by
  have implied : ∀ d ∈ milestoneStages, ("price_agreed" ∈ impliedMilestones (some d) ↔
      d ∈ ["price_agreed", "meet_scheduled", "ledger_credit", "handover_confirmed"]) := by decide
  have ladder : ∀ d ∈ ["price_agreed", "meet_scheduled", "ledger_credit", "handover_confirmed"],
      d ∈ milestoneStages := by decide
  cases named : dealStage r with
  | none => simp [milestonesOf, named, impliedMilestones]
  | some d =>
    have only : (∃ e ∈ ["price_agreed", "meet_scheduled", "ledger_credit", "handover_confirmed"],
        some d = some e) ↔
          d ∈ ["price_agreed", "meet_scheduled", "ledger_credit", "handover_confirmed"] :=
      ⟨fun ⟨e, he, same⟩ => Option.some.inj same ▸ he, fun hd => ⟨d, hd, rfl⟩⟩
    rw [milestonesOf_some named, only]
    by_cases known : d ∈ milestoneStages
    · rw [if_pos known, implied d known]
    · rw [if_neg known]
      exact iff_of_false (by simp) fun rung => known (ladder d rung)

theorem mem_names {r : SignalRecord} {stage : Option String} {x : String} :
    x ∈ (eventOf r stage).signals.map Prod.fst ↔
      has r x = true ∨ x = "categorical_block" ∧ r.verdict = "reject" ∧ r.category ∈ categorical := by
  simp only [eventOf, keptSignals, List.map_append, List.mem_append]
  refine or_congr ?_ ?_
  · simp only [has, keeps, List.map_map, List.mem_map, List.mem_filter, List.any_eq_true,
      decide_eq_true_eq, Function.comp_apply]
    constructor
    · rintro ⟨s, ⟨member, floor⟩, rfl⟩
      exact ⟨s, member, rfl, floor⟩
    · rintro ⟨s, member, rfl, floor⟩
      exact ⟨s, ⟨member, floor⟩, rfl⟩
  · split
    next blocked => simp [blocked]
    next passed => exact iff_of_false (by simp) fun h => passed h.2

theorem mem_names_signal {r : SignalRecord} {stage : Option String} {x : String}
    (other : x ≠ "categorical_block") :
    x ∈ (eventOf r stage).signals.map Prod.fst ↔ has r x = true := by
  rw [mem_names]
  simp [other]

/-! ### The state mirrors the history -/

/-- What each field of a conversation state says about the records it has seen. -/
structure Mirrors (history : List SignalRecord) (st : ConversationState) : Prop where
  turns : st.turns = history.length
  stages : ∀ m ∈ convMilestones, (Dict.get? st.stages m).map (·.ts) =
    (history.find? fun q => m ∈ milestonesOf q).map (·.ts)
  claimants : ∀ s, s ∈ st.identityClaimants ↔
    ∃ q ∈ history, q.srcProfileId = s ∧ has q "identity_claim" = true
  askers : ∀ s, Dict.get? st.moneyAskers s = (firstAsk history s).map (·.ts)

theorem Mirrors.empty : Mirrors [] .empty where
  turns := rfl
  stages _ _ := rfl
  claimants _ := by simp [ConversationState.empty]
  askers _ := rfl

/-- The stored form of a state: another fired set, and the claimants sorted. -/
theorem Mirrors.sorted {history : List SignalRecord} {st : ConversationState}
    (h : Mirrors history st) (fired : List String) :
    Mirrors history
      { st with fired := fired, identityClaimants := sortedSet st.identityClaimants } where
  turns := h.turns
  stages := h.stages
  claimants s := mem_sortedSet.trans (h.claimants s)
  askers := h.askers

theorem get?_recordStages (stages : Dict String Stage) (names : List String) (stage : Stage)
    (m : String) : Dict.get? (recordStages stages names stage) m =
      (Dict.get? stages m).or (if m ∈ names then some stage else none) := by
  induction names generalizing stages with
  | nil => simp [recordStages]
  | cons name names ih =>
    have rest := ih (Dict.setDefault stages name stage)
    simp only [recordStages, List.foldl_cons] at rest ⊢
    rw [rest, Dict.get?_setDefault]
    by_cases same : m = name
    · subst same
      cases Dict.get? stages m <;> simp
    · simp [same]

theorem mem_addMember {xs : List String} {x y : String} :
    y ∈ addMember xs x ↔ y ∈ xs ∨ y = x := by
  unfold addMember
  split
  next old => exact ⟨.inl, fun h => h.elim id fun e => e ▸ old⟩
  next => rw [List.mem_cons, or_comm]

theorem firstAsk_append (history : List SignalRecord) (r : SignalRecord) (sender : String) :
    firstAsk (history ++ [r]) sender = (firstAsk history sender).or
      (if r.srcProfileId = sender ∧ has r "money_ask" = true then some r else none) := by
  simp [firstAsk, List.find?_append, List.find?_singleton]

theorem absorb_claimants (st : ConversationState) (r : SignalRecord) (stage : Option String) :
    (Engine.absorb st (eventOf r stage)).identityClaimants =
      if has r "identity_claim" = true then addMember st.identityClaimants r.srcProfileId
      else st.identityClaimants :=
  if_congr (mem_names_signal (by decide)) rfl rfl

theorem absorb_askers (st : ConversationState) (r : SignalRecord) (stage : Option String) :
    (Engine.absorb st (eventOf r stage)).moneyAskers =
      if has r "money_ask" = true then Dict.setDefault st.moneyAskers r.srcProfileId r.ts
      else st.moneyAskers :=
  if_congr (mem_names_signal (by decide)) rfl rfl

theorem Mirrors.absorb {history : List SignalRecord} {st : ConversationState}
    (h : Mirrors history st) (r : SignalRecord) :
    Mirrors (history ++ [r]) (Engine.absorb st (plainEvent r)) where
  turns := by simp [Engine.absorb, h.turns]
  stages m hm := by
    have notSignal : m ∉ convSignalStages := by
      revert m
      decide
    have mine : m ∈ ((plainEvent r).milestones.filter (· ∈ convMilestones)) ↔
        m ∈ milestonesOf r := by
      simp [eventOf, milestonesOf, hm]
    have old := h.stages m hm
    simp only [Engine.absorb, get?_recordStages, List.mem_filter, notSignal, decide_false,
      Bool.false_eq_true, and_false, if_false, Option.or_none, List.find?_append]
    rw [List.mem_filter] at mine
    -- `setdefault` keeps the first record's stage
    cases first : history.find? fun q => m ∈ milestonesOf q with
    | some q =>
      rw [first, Option.map_some] at old
      cases stored : Dict.get? st.stages m with
      | none => simp [stored] at old
      | some stage => simpa [stored] using old
    | none =>
      rw [first, Option.map_none, Option.map_eq_none_iff] at old
      simp only [old, Option.none_or, if_congr mine rfl rfl]
      by_cases here : m ∈ milestonesOf r <;> simp [here, eventOf]
  claimants s := by
    rw [absorb_claimants]
    by_cases claims : has r "identity_claim" = true
    · rw [if_pos claims, mem_addMember, h.claimants s]
      simp only [List.mem_append, List.mem_singleton, or_and_right, exists_or, exists_eq_left, claims,
        and_true]
      exact or_congr_right eq_comm
    · rw [if_neg claims, h.claimants s]
      simp only [List.mem_append, List.mem_singleton, or_and_right, exists_or, exists_eq_left, claims,
        and_false, or_false, Bool.false_eq_true]
  askers s := by
    have old := h.askers s
    rw [absorb_askers, firstAsk_append]
    by_cases asks : has r "money_ask" = true
    · rw [if_pos asks, Dict.get?_setDefault]
      by_cases mine : s = r.srcProfileId
      · subst mine
        rw [if_pos rfl, if_pos ⟨rfl, asks⟩, old]
        cases firstAsk history r.srcProfileId <;> rfl
      · rw [if_neg mine, if_neg fun both => mine both.1.symm, Option.or_none, old]
    · rw [if_neg asks, if_neg fun both => asks both.2, Option.or_none, old]

/-! ### The conditions of the source are the definitions -/

section

variable {iso : IsoFormat} {history : List SignalRecord} {st : ConversationState}

def Readable (iso : IsoFormat) (history : List SignalRecord) : Prop :=
  ∀ q ∈ history, (parseIso iso q.ts).isSome

theorem stageTs_mirrors (m : Mirrors history st) {name : String} (milestone : name ∈ convMilestones) :
    stageTs iso st.stages name =
      (history.find? fun q => name ∈ milestonesOf q).bind fun q => parseIso iso q.ts := by
  have stored := congrArg (·.bind (parseIso iso)) (m.stages name milestone)
  simpa only [stageTs, Option.bind_map, Function.comp_def] using stored

theorem stageTs_first (m : Mirrors history st) (name : String)
    (rung : name ∈ ["meet_scheduled", "ledger_credit", "ledger_credit_small", "handover_confirmed"]) :
    stageTs iso st.stages name = (firstStage history name).bind fun q => parseIso iso q.ts := by
  have milestone : name ∈ convMilestones := by
    revert name
    decide
  rw [stageTs_mirrors m milestone, firstStage]
  simp only [mem_milestonesOf rung]

theorem stageTs_isSome (m : Mirrors history st) (readable : Readable iso history) {name : String}
    (milestone : name ∈ convMilestones) :
    (stageTs iso st.stages name).isSome = true ↔ ∃ q ∈ history, name ∈ milestonesOf q := by
  rw [stageTs_mirrors m milestone]
  cases first : history.find? fun q => name ∈ milestonesOf q with
  | none => simpa using List.find?_eq_none.mp first
  | some q =>
    have member := List.mem_of_find?_eq_some first
    have reached : name ∈ milestonesOf q := by
      simpa only [decide_eq_true_eq] using List.find?_some first
    rw [Option.bind_some]
    exact iff_of_true (readable q member) ⟨q, member, reached⟩

theorem met_iff (m : Mirrors history st) (readable : Readable iso history) :
    met iso st.stages = true ↔
      Reached history ["meet_scheduled", "ledger_credit", "handover_confirmed"] := by
  have rung : ∀ name ∈ ["meet_scheduled", "ledger_credit", "handover_confirmed"],
      ((stageTs iso st.stages name).isSome = true ↔ ∃ q ∈ history, dealStage q = some name) := by
    intro name hname
    rw [stageTs_isSome m readable (by revert name; decide)]
    exact exists_congr fun q => and_congr_right fun _ => mem_milestonesOf (by revert name; decide)
  simp only [met, Bool.or_eq_true, rung _ (by decide : "meet_scheduled" ∈ _),
    rung _ (by decide : "ledger_credit" ∈ _), rung _ (by decide : "handover_confirmed" ∈ _)]
  simp only [Reached, List.mem_cons, List.not_mem_nil, or_false, exists_eq_or_imp, exists_eq_left,
    and_or_left, exists_or, or_assoc]

theorem price_iff (m : Mirrors history st) (readable : Readable iso history) :
    (stageTs iso st.stages "price_agreed").isNone = true ↔
      ¬Reached history ["price_agreed", "meet_scheduled", "ledger_credit", "handover_confirmed"] := by
  rw [← Option.not_isSome, Bool.not_eq_true', ← Bool.not_eq_true, not_iff_not,
    stageTs_isSome m readable (by decide)]
  exact exists_congr fun q => and_congr_right fun _ => price_mem_milestonesOf

/-- The conditions of a record's event, read off the state that has absorbed it. -/
def conditionsOf (iso : IsoFormat) (st : ConversationState) (r : SignalRecord)
    (stage : Option String) (now : DateTime) : Conditions :=
  conditions iso st ((eventOf r stage).signals.map Prod.fst) r.srcProfileId
    (turnOf (eventOf r stage) st.turns) now

variable {r : SignalRecord} {stage : Option String} {now : DateTime}

theorem asks_iff (name : String) (other : name ≠ "categorical_block") :
    decide (name ∈ (eventOf r stage).signals.map Prod.fst) = has r name := by
  rw [Bool.eq_iff_iff, decide_eq_true_iff, mem_names_signal other]

theorem moneyAsk_iff (m : Mirrors history st) (readable : Readable iso history) :
    (conditionsOf iso st r stage now).moneyAskNoMilestone = true ↔
      Triggers iso history r .moneyAskNoMilestone := by
  simp only [conditionsOf, conditions, asks_iff "money_ask" (by decide), Bool.and_eq_true,
    Bool.not_eq_true', ← Bool.not_eq_true, met_iff m readable]
  constructor
  · rintro ⟨asks, unmet⟩
    exact .moneyAskNoMilestone asks unmet
  · intro h
    cases h with
    | moneyAskNoMilestone asks unmet => exact ⟨asks, unmet⟩

theorem identity_iff (m : Mirrors history st) (readable : Readable iso history) :
    (conditionsOf iso st r stage now).identityThenMoney = true ↔
      Triggers iso history r .identityThenMoney := by
  simp only [conditionsOf, conditions, asks_iff "money_ask" (by decide), Bool.and_eq_true,
    Bool.not_eq_true', ← Bool.not_eq_true, met_iff m readable, decide_eq_true_eq, m.claimants]
  constructor
  · rintro ⟨⟨asks, unmet⟩, claimed⟩
    exact .identityThenMoney asks unmet claimed
  · intro h
    cases h with
    | identityThenMoney asks unmet claimed => exact ⟨⟨asks, unmet⟩, claimed⟩

theorem escalates_iff {ask credit : Option DateTime} :
    escalates ask credit now = true ↔ ∃ a c, ask = some a ∧ credit = some c ∧
      a.instant < c.instant ∧ c.instant ≤ now.instant := by
  cases ask <;> cases credit <;> simp [escalates]

theorem jumps_iff {small : Option DateTime} :
    jumps small now = true ↔ ∃ s, small = some s ∧ 0 ≤ now.instant - s.instant ∧
      now.instant - s.instant ≤ 900 * 1000000 := by
  cases small <;> simp [jumps, jumpedDepositWindow]

theorem fee_iff (m : Mirrors history st) (stamp : parseIso iso r.ts = some now) :
    (conditionsOf iso st r stage now).feeEscalation = true ↔
      Triggers iso history r .feeEscalation := by
  simp only [conditionsOf, conditions, asks_iff "money_ask" (by decide), Bool.and_eq_true,
    escalates_iff, m.askers, stageTs_first m "ledger_credit" (by decide),
    Option.bind_eq_some_iff, Option.map_eq_some_iff]
  constructor
  · rintro ⟨asks, asked, credited, ⟨_, ⟨ask, first, rfl⟩, ha⟩, ⟨credit, firstCredit, hc⟩, lt, le⟩
    exact .feeEscalation ask credit asked credited now asks first firstCredit ha hc stamp lt le
  · intro h
    cases h with
    | feeEscalation ask credit asked credited now' asks first firstCredit ha hc stamp' lt le =>
      obtain rfl := Option.some.inj (stamp.symm.trans stamp')
      exact ⟨asks, asked, credited, ⟨_, ⟨ask, first, rfl⟩, ha⟩, ⟨credit, firstCredit, hc⟩, lt, le⟩

theorem jumped_iff (m : Mirrors history st) (stamp : parseIso iso r.ts = some now) :
    (conditionsOf iso st r stage now).jumpedDeposit = true ↔
      Triggers iso history r .jumpedDeposit := by
  simp only [conditionsOf, conditions, asks_iff "money_ask" (by decide),
    asks_iff "payee_asked_to_act" (by decide), Bool.and_eq_true, Bool.or_eq_true, jumps_iff,
    stageTs_first m "ledger_credit_small" (by decide), Option.bind_eq_some_iff]
  constructor
  · rintro ⟨asks, credited, ⟨small, first, hc⟩, early, late⟩
    exact .jumpedDeposit small credited now asks first hc stamp early late
  · intro h
    cases h with
    | jumpedDeposit small credited now' asks first hc stamp' early late =>
      obtain rfl := Option.some.inj (stamp.symm.trans stamp')
      exact ⟨asks, credited, ⟨small, first, hc⟩, early, late⟩

theorem shift_iff (m : Mirrors history st) :
    (conditionsOf iso st r stage now).channelShiftEarly = true ↔
      Triggers iso history r .channelShiftEarly := by
  simp only [conditionsOf, conditions, asks_iff "channel_shift_request" (by decide),
    Bool.and_eq_true, decide_eq_true_eq, turnOf, m.turns]
  constructor
  · rintro ⟨shifts, early⟩
    exact .channelShiftEarly shifts early
  · intro h
    cases h with
    | channelShiftEarly shifts early => exact ⟨shifts, early⟩

theorem contact_iff (m : Mirrors history st) (readable : Readable iso history) :
    (conditionsOf iso st r stage now).contactSharePreMilestone = true ↔
      Triggers iso history r .contactSharePreMilestone := by
  simp only [conditionsOf, conditions, asks_iff "contact_share" (by decide), Bool.and_eq_true,
    price_iff m readable]
  constructor
  · rintro ⟨shares, unpriced⟩
    exact .contactSharePreMilestone shares unpriced
  · intro h
    cases h with
    | contactSharePreMilestone shares unpriced => exact ⟨shares, unpriced⟩

theorem blocked_iff :
    (conditionsOf iso st r stage now).categoricalBlock = true ↔
      Triggers iso history r .categoricalBlock := by
  simp only [conditionsOf, conditions, decide_eq_true_eq, mem_names, true_and]
  constructor
  · intro h
    exact .categoricalBlock h.symm
  · intro h
    cases h with
    | categoricalBlock h => exact h.symm

/-- An event's conditions hold of exactly the tags its record triggers. -/
theorem mem_tagged (m : Mirrors history st) (readable : Readable iso history)
    (stamp : parseIso iso r.ts = some now) (name : String) :
    (true, name) ∈ (conditionsOf iso st r stage now).tagged ↔
      ∃ t : FraudTag, name = t.name ∧ Triggers iso history r t := by
  simp only [Conditions.tagged, List.mem_cons, Prod.mk.injEq, List.not_mem_nil, or_false,
    eq_comm (a := true), moneyAsk_iff m readable, identity_iff m readable, fee_iff m stamp,
    jumped_iff m stamp, shift_iff m, contact_iff m readable, @blocked_iff iso history st r stage now]
  constructor
  · rintro (⟨h, rfl⟩ | ⟨h, rfl⟩ | ⟨h, rfl⟩ | ⟨h, rfl⟩ | ⟨h, rfl⟩ | ⟨h, rfl⟩ | ⟨h, rfl⟩) <;>
      exact ⟨_, rfl, h⟩
  · rintro ⟨t, rfl, h⟩
    -- the tags no event derives have no trigger
    cases t <;> first | (cases h; done) | simp [FraudTag.name, h]

end

/-! ### One record at a time -/

section

variable {C P : Type} (engine : FraudEngine C P) (hashtext : String → ℤ)

/-- The `derivedTags` of the engine call that ingesting a record makes, if it makes one. -/
def derivedTagsOf (db : RiskDb C P) (r : SignalRecord) : List DerivedTag :=
  if onFile (db (.signalEvents r.sessionId)) r.eventId then []
  else
    match toConversationEvent r with
    | .error _ => []
    | .ok event =>
      match engine.processConversation r.sessionId (db (.conversationRisk r.sessionId)) [event] with
      | .error _ => []
      | .ok out => out.derivedTags

/-- Ingest records in order, each with its clock reading: the derived tags of every call,
and the tables. -/
def ingestAll : List (SignalRecord × DateTime) → RiskDb C P →
    Except IngestError (List (List DerivedTag) × RiskDb C P)
  | [], db => .ok ([], db)
  | (r, clock) :: rest, db =>
    match (ingestRecord engine hashtext clock r).run db with
    | .error e => .error e
    | .ok (_, db') =>
      (ingestAll rest db').map fun done => (derivedTagsOf engine db r :: done.1, done.2)

theorem ingestAll_append {calls : List (SignalRecord × DateTime)} {r : SignalRecord}
    {clock : DateTime} {db mid final : RiskDb C P} {derived : List (List DerivedTag)}
    {a : IngestResponse} (before : ingestAll engine hashtext calls db = .ok (derived, mid))
    (last : (ingestRecord engine hashtext clock r).run mid = .ok (a, final)) :
    ingestAll engine hashtext (calls ++ [(r, clock)]) db =
      .ok (derived ++ [derivedTagsOf engine mid r], final) := by
  -- on the calls before the last, each from the tables the one before left
  induction calls generalizing db derived with
  | nil =>
    cases before
    simp [ingestAll, last, Except.map]
  | cons call calls ih =>
    obtain ⟨q, time⟩ := call
    simp only [ingestAll, List.cons_append] at before ⊢
    cases ran : (ingestRecord engine hashtext time q).run db with
    | error e => simp [ran] at before
    | ok done =>
      simp only [ran] at before ⊢
      cases later : ingestAll engine hashtext calls done.2 with
      | error e => simp [later, Except.map] at before
      | ok tail =>
        simp only [later, Except.map, Except.ok.injEq, Prod.mk.injEq] at before
        obtain ⟨rfl, rfl⟩ := before
        rw [ih later]
        rfl

end

def tagKey (d : DerivedTag) : String := firedKey d.tag d.profileId

/-- What the tables and the calls' derived tags are after a history of one session. -/
structure Computed (F : FloatOps) (iso : IsoFormat) (session : String) (history : List SignalRecord)
    (derived : List (List DerivedTag)) (db : RiskDb ConversationState (AccountState F)) :
    Prop where
  rows : (db (.signalEvents session)).map (·.eventId) = history.map (·.eventId)
  mirrors : Mirrors history (before (db (.conversationRisk session)))
  fired : ∀ key, key ∈ (before (db (.conversationRisk session))).fired ↔
    ∃ (t : FraudTag) (s : String), key = firedKey t.name s ∧ Declared iso history t s
  derives : ∀ key, key ∈ (before (db (.conversationRisk session))).fired ↔
    key ∈ derived.flatten.map tagKey
  once : (derived.flatten.map tagKey).Nodup

theorem Computed.empty (F : FloatOps) (iso : IsoFormat) (session : String) :
    Computed F iso session [] [] RiskDb.empty where
  rows := rfl
  mirrors := Mirrors.empty
  fired key := by simp [ConversationState.empty, Declared]
  derives key := by simp [ConversationState.empty]
  once := List.nodup_nil

section

variable {F : FloatOps} {iso : IsoFormat} (hashtext : String → ℤ) {session : String}
  {history : List SignalRecord} {derived : List (List DerivedTag)}
  {db : RiskDb ConversationState (AccountState F)} {r : SignalRecord}

theorem Computed.unseen (h : Computed F iso session history derived db)
    (here : r.sessionId = session) (new : r.eventId ∉ history.map (·.eventId)) :
    onFile (db (.signalEvents r.sessionId)) r.eventId = false := by
  rw [here, onFile, List.any_eq_false]
  intro row member same
  refine new (h.rows ▸ ?_)
  rw [← of_decide_eq_true same]
  exact List.mem_map_of_mem member

/-- The tags a new record fires: those it triggers and the session has not yet fired. -/
theorem Computed.passTags_iff (h : Computed F iso session history derived db)
    (readable : Readable iso (history ++ [r])) (name : String) :
    name ∈ passTags iso (db (.conversationRisk session)) (plainEvent r) ↔
      (∃ t : FraudTag, name = t.name ∧ Triggers iso (history ++ [r]) r t) ∧
        firedKey name r.srcProfileId ∉ (before (db (.conversationRisk session))).fired := by
  obtain ⟨now, stamp⟩ := Option.isSome_iff_exists.mp (readable r (by simp))
  have tagged : (true, name) ∈ (eventConditions iso (db (.conversationRisk session))
      (plainEvent r) now).tagged ↔ _ :=
    mem_tagged (h.mirrors.absorb r) readable stamp name
  have stamped : parseIso iso (plainEvent r).ts = some now := stamp
  simp only [passTags, stamped, freshTags, List.mem_map, List.mem_filter, decide_eq_true_eq,
    ← tagged]
  constructor
  · rintro ⟨⟨b, name⟩, ⟨member, rfl, new⟩, rfl⟩
    exact ⟨member, new⟩
  · rintro ⟨member, new⟩
    exact ⟨(true, name), ⟨member, rfl, new⟩, rfl⟩

/-- One more record of the session, with an event id of its own, is ingested and computes
one more step of the definitions. -/
theorem Computed.step (h : Computed F iso session history derived db) (clock : DateTime)
    (here : r.sessionId = session) (new : r.eventId ∉ history.map (·.eventId))
    (plain : PlainStage r) (readable : Readable iso (history ++ [r])) :
    ∃ a db', (ingestRecord (vendored F iso) hashtext clock r).run db = .ok (a, db') ∧
      Computed F iso session (history ++ [r])
        (derived ++ [derivedTagsOf (vendored F iso) db r]) db' := by
  have unseen := h.unseen here new
  have mapped := mapped_of_plain plain
  obtain ⟨a, db', ran, _, rows, states⟩ := vendored_ingest F iso hashtext clock db mapped unseen
  subst here
  have read : (parseIso iso (plainEvent r).ts).isSome := readable r (by simp)
  have state : before (db' (.conversationRisk r.sessionId)) =
      (processConversation iso (db (.conversationRisk r.sessionId)) [plainEvent r]).state := by
    rw [states, storedDb_conversationRisk, if_pos rfl]
    rfl
  have derives : derivedTagsOf (vendored F iso) db r =
      (passTags iso (db (.conversationRisk r.sessionId)) (plainEvent r)).map
        (⟨·, r.srcProfileId, r.ts⟩) := by
    simp only [derivedTagsOf, unseen, Bool.false_eq_true, if_false, mapped, vendored]
    rw [processConversation_derived]
    rfl
  refine ⟨a, db', ran, ?_, ?_, ?_, ?_, ?_⟩
  · rw [rows, storedDb_signalEvents, if_pos rfl, List.map_append, h.rows, List.map_append]
    rfl
  · rw [state, processConversation_event, passState, if_pos read]
    exact (h.mirrors.absorb r).sorted _
  · intro key
    rw [state, processConversation_fired, h.fired]
    constructor
    · rintro (⟨t, s, rfl, old⟩ | ⟨name, fires, rfl⟩)
      · exact ⟨t, s, rfl, (declared_append _ _ _ _).mpr (.inl old)⟩
      · obtain ⟨⟨t, rfl, triggers⟩, _⟩ := (h.passTags_iff readable name).mp fires
        exact ⟨t, _, rfl, (declared_append _ _ _ _).mpr (.inr ⟨rfl, triggers⟩)⟩
    · rintro ⟨t, s, rfl, declared⟩
      rcases (declared_append _ _ _ _).mp declared with old | ⟨rfl, triggers⟩
      · exact .inl ⟨t, s, rfl, old⟩
      -- triggered again: it was fired by an earlier record, or it fires now
      · by_cases fired : firedKey t.name r.srcProfileId ∈
            (before (db (.conversationRisk r.sessionId))).fired
        · exact .inl ((h.fired _).mp fired)
        · exact .inr ⟨t.name, (h.passTags_iff readable _).mpr ⟨⟨t, rfl, triggers⟩, fired⟩, rfl⟩
  · intro key
    rw [state, processConversation_fired, h.derives, derives, List.flatten_append, List.map_append,
      List.mem_append]
    simp only [List.flatten_singleton, List.map_map, List.mem_map, Function.comp_apply, tagKey]
    exact or_congr_right (exists_congr fun _ => and_congr_right fun _ => eq_comm)
  · rw [derives, List.flatten_append, List.map_append, List.flatten_singleton, List.map_map,
      List.nodup_append]
    refine ⟨h.once, ?_, ?_⟩
    -- within the call the tags differ, and the session had fired none of them
    · refine (passTags_nodup iso _ _).map_on fun x hx y hy same => ?_
      exact (firedKey_inj same (derivedNames_plain x (passTags_fresh iso _ _ hx).1)
        (derivedNames_plain y (passTags_fresh iso _ _ hy).1)).1
    · rintro key old _ new rfl
      obtain ⟨name, fires, rfl⟩ := List.mem_map.mp new
      exact (passTags_fresh iso _ _ fires).2 ((h.derives _).mpr old)

def DerivedIn (derived : List (List DerivedTag)) (i : ℕ) (key : String) : Prop :=
  ∃ tags : List DerivedTag, derived[i]? = some tags ∧ key ∈ tags.map tagKey

/-- No key twice among all the calls: each key is derived in exactly one of them. -/
theorem existsUnique_of_nodup {derived : List (List DerivedTag)}
    (once : (derived.flatten.map tagKey).Nodup) {key : String}
    (member : key ∈ derived.flatten.map tagKey) : ∃! i, DerivedIn derived i key := by
  rw [List.map_flatten] at once member
  obtain ⟨keys, hkeys, hkey⟩ := List.mem_flatten.mp member
  obtain ⟨tags, htags, rfl⟩ := List.mem_map.mp hkeys
  obtain ⟨i, there⟩ := List.mem_iff_getElem?.mp htags
  have apart := (List.nodup_flatten.mp once).2
  rw [List.pairwise_map] at apart
  -- two different calls share no key
  have distinct : ∀ i j, i < j → DerivedIn derived i key → ¬DerivedIn derived j key := by
    rintro i j lt ⟨xs, hx, kx⟩ ⟨ys, hy, ky⟩
    obtain ⟨li, rfl⟩ := List.getElem?_eq_some_iff.mp hx
    obtain ⟨lj, rfl⟩ := List.getElem?_eq_some_iff.mp hy
    exact List.pairwise_iff_getElem.mp apart i j li lj lt kx ky
  refine ⟨i, ⟨tags, there, hkey⟩, fun j hj => ?_⟩
  rcases Nat.lt_trichotomy i j with lt | eq | gt
  · exact absurd hj (distinct i j lt ⟨tags, there, hkey⟩)
  · exact eq.symm
  · exact absurd ⟨tags, there, hkey⟩ (distinct j i gt hj)

/-- A whole history of one session. -/
theorem ingestAll_computed (calls : List (SignalRecord × DateTime))
    (oneSession : ∀ c ∈ calls, c.1.sessionId = session)
    (distinct : (calls.map (·.1.eventId)).Nodup)
    (readable : ∀ c ∈ calls, (parseIso iso c.1.ts).isSome)
    (plain : ∀ c ∈ calls, PlainStage c.1) :
    ∃ derived final,
      ingestAll (vendored F iso) hashtext calls RiskDb.empty = .ok (derived, final) ∧
        Computed F iso session (calls.map (·.1)) derived final := by
  -- on the calls from the last one back: the state mirrors the history before each record
  induction calls using List.reverseRecOn with
  | nil => exact ⟨[], RiskDb.empty, rfl, Computed.empty F iso session⟩
  | append_singleton calls call ih =>
    obtain ⟨r, clock⟩ := call
    rw [List.map_append, List.nodup_append] at distinct
    obtain ⟨derived, mid, ran, computed⟩ := ih (fun c hc => oneSession c (by simp [hc]))
      distinct.1 (fun c hc => readable c (by simp [hc])) (fun c hc => plain c (by simp [hc]))
    have new : r.eventId ∉ (calls.map (·.1)).map (·.eventId) := by
      intro old
      rw [List.map_map] at old
      exact distinct.2.2 _ old _ (by simp) rfl
    obtain ⟨a, final, last, computed'⟩ := computed.step hashtext clock
      (oneSession (r, clock) (by simp)) new (plain (r, clock) (by simp)) (by
        intro q hq
        rcases List.mem_append.mp hq with old | same
        · obtain ⟨c, hc, rfl⟩ := List.mem_map.mp old
          exact readable c (by simp [hc])
        · rw [List.mem_singleton.mp same]
          exact readable (r, clock) (by simp))
    exact ⟨_, final, ingestAll_append _ hashtext ran last, by simpa using computed'⟩

/-- One-record-at-a-time ingestion computes the definitions: every call succeeds, the final
fired set is the declared tags of the session's senders, and each of them is in the derived
tags of exactly one call. -/
theorem fired_iff_declared (F : FloatOps) (iso : IsoFormat) (hashtext : String → ℤ)
    (calls : List (SignalRecord × DateTime)) (session : String)
    (oneSession : ∀ c ∈ calls, c.1.sessionId = session)
    (distinct : (calls.map (·.1.eventId)).Nodup)
    (readable : ∀ c ∈ calls, (parseIso iso c.1.ts).isSome)
    (plain : ∀ c ∈ calls, PlainStage c.1) :
    ∃ derived final,
      ingestAll (vendored F iso) hashtext calls RiskDb.empty = .ok (derived, final) ∧
      (∀ key, key ∈ (before (final (.conversationRisk session))).fired ↔
        ∃ (t : FraudTag) (s : String), key = firedKey t.name s ∧
          Declared iso (calls.map (·.1)) t s) ∧
      ∀ key ∈ (before (final (.conversationRisk session))).fired,
        ∃! i, DerivedIn derived i key := by
  obtain ⟨derived, final, ran, computed⟩ :=
    ingestAll_computed hashtext calls oneSession distinct readable plain
  exact ⟨derived, final, ran, computed.fired, fun key fired =>
    existsUnique_of_nodup computed.once ((computed.derives key).mp fired)⟩

end

/-- A blocked message and the other party's answer. -/
def blockedSession : List (SignalRecord × DateTime) :=
  [(blockedRecord, ⟨0, 0⟩),
    ({ blockedRecord with eventId := "f", srcProfileId := "q", verdict := "allow" }, ⟨0, 0⟩)]

theorem fired_iff_declared_blocked :
    ∃ derived final,
      ingestAll (vendored rationalOps epochDates) (fun _ => 0) blockedSession RiskDb.empty =
        .ok (derived, final) ∧
      (∀ key, key ∈ (before (final (.conversationRisk "s"))).fired ↔
        ∃ (t : FraudTag) (s : String), key = firedKey t.name s ∧
          Declared epochDates (blockedSession.map (·.1)) t s) ∧
      ∀ key ∈ (before (final (.conversationRisk "s"))).fired, ∃! i, DerivedIn derived i key := by
  refine fired_iff_declared rationalOps epochDates (fun _ => 0) blockedSession "s" ?_ (by decide) ?_ ?_
  · simp [blockedSession, blockedRecord]
  · intro c hc
    rcases List.mem_pair.mp hc with rfl | rfl <;> decide
  · intro c hc
    rcases List.mem_pair.mp hc with rfl | rfl <;> trivial

end DostReview.Risk
