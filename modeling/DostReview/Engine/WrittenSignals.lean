import DostReview.Engine.Repeats
import DostReview.Engine.Written

/-!
# An account as it is stored

The state of an account as JSON, and `process_signals` on whatever a JSONB column makes of it.
The keys of `fraudTagStates` come back in another order, and so the mass is added up in another:
where the order of a sum does not matter, the answer is that on the state itself.
-/
namespace DostReview.Engine

open Risk Stored

/-- What is relied on of the weights that are stored: they are closed under decay and folding,
a weight that is written is read back, and sums do not depend on their order. -/
structure Weights (F : PyOps) where
  weight : F.Float → Prop
  zero : weight (F.lit 0)
  add : ∀ w f, weight w → F.fraction f → weight (F.add w f)
  mul : ∀ w f, weight w → F.fraction f → weight (F.mul w f)
  finite : ∀ w, weight w → F.isfinite w = true
  /-- also where a whole number comes back without its fraction -/
  written : ∀ w, weight w → ∃ q, F.value w = .fin q ∧ F.ofValue (.fin q) = w ∧
    ∀ i : ℤ, q = i → F.ofInt i = some w
  sums : ∀ x a b, F.add (F.add x a) b = F.add (F.add x b) a

variable {F : PyOps}

/-! ### What is written -/

def TagState.fields (s : TagState F.toFloatOps) : JsonObject :=
  [("count", .int s.count), ("w", .float (F.value s.w))]

def RecentEntry.fields (entry : RecentEntry) : JsonObject :=
  [("cp", .str entry.cp), ("ts", .str entry.ts)]

theorem RecentEntry.fields_same (entry : RecentEntry) :
    Same (.obj entry.fields) (.obj entry.fields) :=
  .of_fields (by simp [fields]) (.cons ⟨rfl, .str _⟩ (.cons ⟨rfl, .str _⟩ .nil))

def SeenEntry.fields (entry : SeenEntry) : JsonObject :=
  [("tags", .arr ((entry.tags.map FraudTag.name).map .str)), ("ts", optional entry.ts)]

def Denoms.fields (d : Denoms) : JsonObject :=
  [("conversations", .int d.conversations), ("moneyAskConversations", .int d.moneyAskConversations)]

def AccountState.fields (st : AccountState F.toFloatOps) : JsonObject :=
  [("fraudTagStates", .obj (Dict.mapValues (fun _ s => .obj (TagState.fields s))
      (Dict.renamed FraudTag.name st.fraudTagStates))),
    ("recent", .obj (Dict.mapValues (fun _ entries => .arr (entries.map fun e => .obj e.fields))
      (Dict.renamed FraudTag.name st.recent))),
    ("convSeen", .obj (Dict.mapValues (fun _ entry => .obj (SeenEntry.fields entry)) st.convSeen)),
    ("denoms", .obj st.denoms.fields),
    ("lastUpdated", optional st.lastUpdated)]

/-- A column holds the state of an account. -/
structure HoldsAccount (W : Weights F) (st : AccountState F.toFloatOps) (x : Json) : Prop where
  same : Same (.obj st.fields) x
  weights : ∀ e ∈ st.fraudTagStates, W.weight e.2.w

/-! ### What is read -/

structure TagIs (W : Weights F) (s : TagState F.toFloatOps) (row : TagRow F) : Prop where
  count : row.count = s.count
  w : row.w = s.w
  weight : W.weight s.w
  distinct : (row.rest.map Prod.fst).Nodup
  plain : ∀ key, key ≠ "count" → key ≠ "w" → Dict.get? row.rest key = none

structure SeenIs (entry : SeenEntry) (row : SeenRow) : Prop where
  tags : row.tags = (entry.tags.map FraudTag.name).map .str
  ts : row.ts = optional entry.ts

def EntriesAre (entries : List RecentEntry) (xs : List Json) : Prop :=
  List.Forall₂ (fun e x => Same (.obj (RecentEntry.fields e)) x) entries xs

/-- The variables of `process_signals` as they are read from JSON. -/
structure Reads (W : Weights F) (st : AccountState F.toFloatOps) (a : Account F) : Prop where
  tags : Dict.Alike (TagIs W) (Dict.renamed FraudTag.name st.fraudTagStates) a.tags
  recent : Dict.Alike EntriesAre (Dict.renamed FraudTag.name st.recent) a.recent
  seen : Dict.Alike SeenIs st.convSeen a.convSeen
  conversations : a.conversations = st.denoms.conversations
  moneyAskConversations : a.moneyAskConversations = st.denoms.moneyAskConversations

theorem FraudTag.name_injective : Function.Injective FraudTag.name := fun _ _ => FraudTag.name_inj

section

variable {W : Weights F} {st : AccountState F.toFloatOps} {x : Json}

/-- The number that is read, whether zero reads as false or not. -/
theorem pyFloat_weight {w : F.Float} (weight : W.weight w) {q : ℚ} (written : F.value w = .fin q)
    (number : rational x = some q) :
    pyFloat F (if truthy x then x else .float (.fin 0)) = .ok w := by
  obtain ⟨q', value, back, whole⟩ := W.written w weight
  obtain rfl : q' = q := PyFloat.fin.inj (value.symm.trans written)
  rw [truthy_of_rational number]
  by_cases zero : q' = 0
  · subst zero
    simp [pyFloat, back]
  · simp only [zero, ne_eq, not_false_eq_true, decide_true, if_true]
    cases x with
    | int i =>
      rw [pyFloat, whole i (Option.some.inj number).symm]
      rfl
    | float f =>
      cases f with
      | fin v =>
        obtain rfl := Option.some.inj number
        rw [pyFloat, back]
      | _ => cases number
    | _ => cases number

theorem pyInt_count {i : ℤ} (number : rational x = some (i : ℚ)) :
    pyInt F (if truthy x then x else .int 0) = .ok i := by
  rw [truthy_of_rational number]
  by_cases zero : i = 0
  · simp [zero, pyInt]
  · simp only [ne_eq, Int.cast_eq_zero, zero, not_false_eq_true, decide_true, if_true]
    exact pyInt_of_rational number

theorem loadTag_same {s : TagState F.toFloatOps} (weight : W.weight s.w)
    (same : Same (.obj (TagState.fields s)) x) :
    ∃ row, loadTag F x = .ok (some row) ∧ TagIs W s row := by
  obtain ⟨o, rfl, alike⟩ := same.obj_inv
  obtain ⟨q, written, -, -⟩ := W.written s.w weight
  have count : rational (field o "count") = some ((s.count : ℤ) : ℚ) :=
    (field_same alike "count").number_inv rfl
  have w : rational (field o "w") = some q := by
    refine (field_same alike "w").number_inv ?_
    simp [TagState.fields, field, Dict.get?, written, rational]
  have read : readTag F o = .ok (some (s.count, s.w)) := by
    simp only [readTag, pyFloat_weight weight written w, pyInt_count count]
    rfl
  refine ⟨⟨o, s.count, s.w⟩, ?_, rfl, rfl, weight, alike.distinct', fun key count w => ?_⟩
  · simp [loadTag, read, W.finite s.w weight, bind, Except.bind, pure, Except.pure]
  · exact alike.missing (by simp [TagState.fields, Dict.get?, Ne.symm count, Ne.symm w])

/-- The entry that is kept of a stored one. -/
def loadedTag (F : PyOps) (x : Json) : Option (TagRow F) := (loadTag F x).toOption.join

theorem loadTags_eq (stored : Dict String Json) :
    loadTags F stored = .ok (stored.filterMap fun e => (loadedTag F e.2).map (Prod.mk e.1)) := by
  induction stored with
  | nil => rfl
  | cons e stored ih =>
    obtain ⟨tag, x⟩ := e
    obtain ⟨row, loaded⟩ : ∃ row, loadTag F x = .ok row := by
      cases x with
      | obj s =>
        obtain ⟨numbers, read, -⟩ : (readTag F s).Returns fun _ => True := readTag_returns s
        exact ⟨_, by simp only [loadTag, read]; rfl⟩
      | _ => exact ⟨none, rfl⟩
    simp only [loadTags, loaded, ih, List.filterMap_cons, loadedTag]
    cases row <;> rfl

theorem loadTags_held {stored : JsonObject} (weights : ∀ e ∈ st.fraudTagStates, W.weight e.2.w)
    (entries : Dict.Alike Same (Dict.mapValues (fun _ s => .obj (TagState.fields s))
      (Dict.renamed FraudTag.name st.fraudTagStates)) stored) :
    Dict.Alike (TagIs W) (Dict.renamed FraudTag.name st.fraudTagStates)
      (stored.filterMap fun e => (loadedTag F e.2).map (Prod.mk e.1)) := by
  have all : ∀ e ∈ Dict.renamed FraudTag.name st.fraudTagStates, W.weight e.2.w := by
    intro e member
    obtain ⟨e', within, rfl⟩ := List.mem_map.mp member
    exact weights e' within
  have written : Dict.Alike (fun s x => Same (.obj (TagState.fields s)) x)
      (Dict.renamed FraudTag.name st.fraudTagStates) stored :=
    entries.of_mapValues fun _ _ _ same => same
  have values := written.and_left (P := fun s => W.weight s.w) all
  refine values.filterMap fun s x related => ?_
  obtain ⟨row, loaded, tagged⟩ := loadTag_same related.2 related.1
  exact ⟨row, by rw [loadedTag, loaded]; rfl, tagged⟩

/-- The list, for `isinstance(v, list)`. -/
def asArray : Json → Option (List Json)
  | .arr items => some items
  | _ => none

theorem loadRecent_held {prev recent : JsonObject} (noted : field prev "recent" = .obj recent)
    (entries : Dict.Alike Same (Dict.mapValues (fun _ entries => .arr (entries.map fun e =>
      .obj (RecentEntry.fields e))) (Dict.renamed FraudTag.name st.recent)) recent) :
    Dict.Alike EntriesAre (Dict.renamed FraudTag.name st.recent) (loadRecent prev) := by
  have lists : loadRecent prev = recent.filterMap fun e => (asArray e.2).map (Prod.mk e.1) := by
    rw [loadRecent, noted, asObject]
    congr 1
    funext e
    obtain ⟨key, value⟩ := e
    cases value <;> rfl
  rw [lists]
  have values := entries.of_mapValues fun _ _ _ same => same
  refine values.filterMap fun entries x same => ?_
  obtain ⟨items, rfl, each⟩ := same.arr_inv
  exact ⟨items, rfl, List.forall₂_map_left_iff.mp each⟩

/-- The dedupe record of a conversation. -/
def asSeen (x : Json) : Option SeenRow :=
  (asDict x).map fun v => ⟨asList (field v "tags"), field v "ts"⟩

theorem asSeen_same {entry : SeenEntry} {x : Json} (same : Same (.obj entry.fields) x) :
    ∃ row, asSeen x = some row ∧ SeenIs entry row := by
  obtain ⟨o, rfl, alike⟩ := same.obj_inv
  have tags : field o "tags" = .arr ((entry.tags.map FraudTag.name).map .str) :=
    (field_same alike "tags").strings_inv
  have ts : field o "ts" = optional entry.ts := (field_same alike "ts").optional_inv
  exact ⟨_, rfl, congrArg asList tags, ts⟩

theorem loadSeen_held {prev seen : JsonObject} (remembered : field prev "convSeen" = .obj seen)
    (entries : Dict.Alike Same (Dict.mapValues (fun _ entry => .obj (SeenEntry.fields entry))
      st.convSeen) seen) :
    Dict.Alike SeenIs st.convSeen (loadSeen prev) := by
  have rows : loadSeen prev = seen.filterMap fun e => (asSeen e.2).map (Prod.mk e.1) := by
    rw [loadSeen, remembered, asObject]
    congr 1
    funext e
    obtain ⟨key, value⟩ := e
    cases value <;> rfl
  rw [rows]
  have values := entries.of_mapValues fun _ _ _ same => same
  exact values.filterMap fun entry x same => asSeen_same same

/-- A state is read back: nothing is dropped, and nothing raises. -/
theorem HoldsAccount.load (h : HoldsAccount W st x) :
    ∃ prev a, x = .obj prev ∧ loadAccount F prev = .ok a ∧ Reads W st a ∧
      field prev "lastUpdated" = optional st.lastUpdated := by
  obtain ⟨prev, rfl, alike⟩ := h.same.obj_inv
  obtain ⟨stored, tags, entries⟩ := (field_same alike "fraudTagStates").obj_inv
  obtain ⟨recent, noted, counterparties⟩ := (field_same alike "recent").obj_inv
  obtain ⟨seen, remembered, records⟩ := (field_same alike "convSeen").obj_inv
  obtain ⟨denoms, counted, numbers⟩ := (field_same alike "denoms").obj_inv
  have conversations : countOf F (field denoms "conversations") =
      .ok (st.denoms.conversations : ℤ) :=
    countOf_of_rational ((field_same numbers "conversations").number_inv rfl)
  have asks : countOf F (field denoms "moneyAskConversations") =
      .ok (st.denoms.moneyAskConversations : ℤ) :=
    countOf_of_rational ((field_same numbers "moneyAskConversations").number_inv rfl)
  have loaded : loadAccount F prev = .ok
      { tags := stored.filterMap fun e => (loadedTag F e.2).map (Prod.mk e.1)
        recent := loadRecent prev
        convSeen := loadSeen prev
        conversations := st.denoms.conversations
        moneyAskConversations := st.denoms.moneyAskConversations } := by
    simp only [loadAccount, tags, counted, asObject, loadTags_eq, conversations, asks]
    rfl
  exact ⟨prev, _, rfl, loaded, ⟨loadTags_held h.weights entries,
    loadRecent_held noted counterparties, loadSeen_held remembered records, rfl, rfl⟩,
    (field_same alike "lastUpdated").optional_inv⟩

end

/-! ### Decay -/

section

variable {W : Weights F} {st : AccountState F.toFloatOps} {a : Account F} {iso : IsoFormat}
  {now : DateTime}

/-- `_fraud_recency_weight`, which does not overflow. -/
def agedBy (F : PyOps) (age : F.Float) (tag : String) : F.Float :=
  if F.lt (F.lit 0) age then
    F.halfPow (F.div age (F.lit (if tag ∈ outcomeNames then 540 else 7)))
  else F.lit 1

theorem recencyWeight_eq (age : F.Float) (tag : String) :
    Stored.recencyWeight F age tag = .ok (agedBy F age tag) := by
  unfold Stored.recencyWeight agedBy
  split
  next aged =>
    have half : (0 : ℚ) < if tag ∈ outcomeNames then 540 else 7 := by split <;> norm_num
    simp only [F.pow_ok _ _ aged half, Bool.false_eq_true, if_false]
  next => rfl

theorem mem_outcomeNames {t : FraudTag} : t.name ∈ outcomeNames ↔ t ∈ FraudTag.outcome :=
  List.mem_map_of_injective FraudTag.name_injective

theorem agedBy_name (age : F.Float) (t : FraudTag) :
    agedBy F age t.name = Engine.recencyWeight F.toFloatOps age t := by
  simp only [agedBy, Engine.recencyWeight, FraudTag.halfLife, mem_outcomeNames]

theorem ageTags_eq (age : F.Float) (tags : Dict String (TagRow F)) :
    ageTags F age tags =
      .ok (Dict.mapValues (fun tag row => { row with w := F.mul row.w (agedBy F age tag) }) tags) := by
  induction tags with
  | nil => rfl
  | cons e tags ih =>
    simp only [ageTags, recencyWeight_eq, ih]
    rfl

theorem Reads.weights (h : Reads W st a) : ∀ e ∈ st.fraudTagStates, W.weight e.2.w := by
  intro e member
  have within : (e.1.name, e.2) ∈ Dict.renamed FraudTag.name st.fraudTagStates :=
    List.mem_map_of_mem member
  obtain ⟨row, -, tagged⟩ := h.tags.found (Dict.get?_of_mem h.tags.distinct within)
  exact tagged.weight

theorem Reads.decay (h : Reads W st a) (now : DateTime) (last : Option DateTime) :
    ∃ tags, Stored.decayTags F now last a.tags = .ok tags ∧
      Reads W (decayed F.toFloatOps now last st) { a with tags := tags } := by
  have finite : loadTagStates F.toFloatOps st = st.fraudTagStates :=
    loadTagStates_finite fun e member => W.finite _ (h.weights e member)
  cases last with
  | none => exact ⟨a.tags, rfl, by simpa only [decayed, finite, Engine.decayTags] using h⟩
  | some last =>
    refine ⟨_, ageTags_eq _ a.tags, { h with tags := ?_ }⟩
    simp only [decayed, finite, Engine.decayTags]
    refine h.tags.renamed_mapValues FraudTag.name_injective fun t s row tagged => ?_
    refine { tagged with w := ?_, weight := ?_ }
    · simp only [tagged.w, agedBy_name]
    · exact W.mul _ _ tagged.weight (recencyWeight_fraction F.toFloatOps _ t)

/-! ### One item -/

theorem hasTag_iff {tags : List FraudTag} {t : FraudTag} :
    hasTag ((tags.map FraudTag.name).map .str) t.name = true ↔ t ∈ tags := by
  rw [hasTag, List.any_eq_true]
  constructor
  · rintro ⟨x, member, same⟩
    obtain ⟨name, within, rfl⟩ := List.mem_map.mp member
    obtain ⟨u, among, rfl⟩ := List.mem_map.mp within
    have named : u.name = t.name := Option.some.inj (of_decide_eq_true same)
    exact FraudTag.name_inj named ▸ among
  · intro member
    exact ⟨_, List.mem_map_of_mem (List.mem_map_of_mem member), decide_eq_true rfl⟩

theorem Reads.seenIn (h : Reads W st a) (conv : String) :
    ((Dict.get? a.convSeen conv).map (·.tags)).getD [] =
      ((seenEntry F.toFloatOps st conv).tags.map FraudTag.name).map .str := by
  unfold seenEntry
  cases there : Dict.get? st.convSeen conv with
  | none =>
    rw [h.seen.missing there]
    rfl
  | some entry =>
    obtain ⟨row, there', known⟩ := h.seen.found there
    rw [there']
    exact known.tags

theorem Reads.bump (h : Reads W st a) (age : F.Float) (t : FraudTag) :
    let row := (Dict.get? a.tags t.name).getD ⟨[], 0, F.lit 0⟩
    Dict.Alike (TagIs W)
      (Dict.renamed FraudTag.name (bumpTag F.toFloatOps age t st.fraudTagStates))
      (Dict.set a.tags t.name { row with
        count := row.count + 1, w := F.add row.w (agedBy F age t.name) }) := by
  intro row
  have fresh : TagIs W ⟨0, F.lit 0⟩ ⟨[], 0, F.lit 0⟩ :=
    ⟨rfl, rfl, W.zero, List.nodup_nil, fun _ _ _ => rfl⟩
  have tagged := h.tags.getD t.name fresh
  rw [Dict.get?_renamed FraudTag.name_injective] at tagged
  rw [bumpTag, Dict.renamed_set FraudTag.name_injective]
  refine h.tags.set t.name { tagged with count := ?_, w := ?_, weight := ?_ }
  · simp only [row, tagged.count, Nat.cast_add, Nat.cast_one]
  · simp only [row, tagged.w, agedBy_name]
  · exact W.add _ _ tagged.weight (recencyWeight_fraction F.toFloatOps _ t)

theorem Reads.note (h : Reads W st a) (created : DateTime) {t : FraudTag} {item : SignalItem}
    (named : item.tag = t.name) :
    Dict.Alike EntriesAre
      (Dict.renamed FraudTag.name (Engine.noteCounterparty iso created t item st.recent))
      (Stored.noteCounterparty iso created item a.recent) := by
  unfold Engine.noteCounterparty Stored.noteCounterparty
  cases item.counterpartyId with
  | none => exact h.recent
  | some cp =>
    by_cases blank : cp = ""
    · simpa only [blank, if_true] using h.recent
    · simp only [if_neg blank, named]
      rw [Dict.renamed_set FraudTag.name_injective]
      refine h.recent.set t.name ?_
      have before := h.recent.getD t.name (show EntriesAre [] [] from .nil)
      rw [Dict.get?_renamed FraudTag.name_injective] at before
      exact List.rel_append before (.cons (RecentEntry.fields_same _) .nil)

variable {item : SignalItem} {t : FraudTag} {tags : List FraudTag}

/-- A tag that its conversation has seen. -/
theorem foldItem_again (name : item.tag = t.name)
    (seen : ((Dict.get? a.convSeen (item.conversationId.getD "")).map (·.tags)).getD [] =
      (tags.map FraudTag.name).map .str) (before : t ∈ tags) :
    Stored.foldItem F iso now a item = .ok { a with
      convSeen := Dict.set a.convSeen (item.conversationId.getD "")
        ⟨(tags.map FraudTag.name).map .str, .str (iso.isoformat now)⟩ } := by
  have known : ¬(FraudTag.ofName item.tag).isNone := by simp [name, FraudTag.ofName_name]
  rw [Stored.foldItem, if_neg known]
  simp only [seen, name, hasTag_iff.mpr before, if_true]

/-- A tag that is new to its conversation. -/
theorem foldItem_new (name : item.tag = t.name)
    (seen : ((Dict.get? a.convSeen (item.conversationId.getD "")).map (·.tags)).getD [] =
      (tags.map FraudTag.name).map .str) (new : t ∉ tags) :
    let created := createdOf iso now item
    let age := ageDays F.toFloatOps now created
    let row := (Dict.get? a.tags t.name).getD ⟨[], 0, F.lit 0⟩
    Stored.foldItem F iso now a item = .ok
      { tags := Dict.set a.tags t.name { row with
          count := row.count + 1, w := F.add row.w (agedBy F age t.name) }
        recent := Stored.noteCounterparty iso created item a.recent
        convSeen := Dict.set a.convSeen (item.conversationId.getD "")
          ⟨(tags.map FraudTag.name).map .str ++ [.str t.name], .str (iso.isoformat now)⟩
        conversations := if tags = [] then a.conversations + 1 else a.conversations
        moneyAskConversations := if t = .moneyAskNoMilestone then a.moneyAskConversations + 1
          else a.moneyAskConversations } := by
  have known : ¬(FraudTag.ofName item.tag).isNone := by simp [name, FraudTag.ofName_name]
  have unseen : ¬hasTag ((tags.map FraudTag.name).map .str) t.name = true := mt hasTag_iff.mp new
  have empty : ((tags.map FraudTag.name).map Json.str).isEmpty = decide (tags = []) := by
    cases tags <;> rfl
  have asks : t.name = "money_ask_no_milestone" ↔ t = .moneyAskNoMilestone :=
    ⟨fun same => FraudTag.name_inj same, fun same => same ▸ rfl⟩
  rw [Stored.foldItem, if_neg known]
  simp only [seen, name, unseen, recencyWeight_eq, empty, asks, decide_eq_true_eq]
  rfl

/-- One item more is counted in what is read as in the state. -/
theorem Reads.counted (h : Reads W st a) (now : DateTime) (item : SignalItem) :
    ∃ a', Stored.foldItem F iso now a item = .ok a' ∧
      Reads W (Engine.foldItem F.toFloatOps iso now st item) a' := by
  cases named : FraudTag.ofName item.tag with
  | none => exact ⟨a, by rw [Stored.foldItem, named]; rfl, by rw [Engine.foldItem, named]; exact h⟩
  | some t =>
    have name : item.tag = t.name := FraudTag.ofName_eq.mp named
    have seen := h.seenIn (item.conversationId.getD "")
    by_cases before : t ∈ (seenEntry F.toFloatOps st (item.conversationId.getD "")).tags
    · refine ⟨_, foldItem_again name seen before, ?_⟩
      simp only [Engine.foldItem, named]
      rw [if_pos (by exact before)]
      exact { h with seen := h.seen.set _ ⟨rfl, rfl⟩ }
    · refine ⟨_, foldItem_new name seen before, ?_⟩
      simp only [Engine.foldItem, named]
      rw [if_neg (by exact before)]
      refine ⟨h.bump _ t, h.note _ name, h.seen.set _ ⟨?_, rfl⟩, ?_, ?_⟩
      · rw [List.map_append, List.map_append]
        rfl
      · simp only [Denoms.count, h.conversations]
        split <;> simp
      · simp only [Denoms.count, h.moneyAskConversations]
        split <;> simp

variable (iso) in
theorem Reads.all_counted (h : Reads W st a) (now : DateTime) (items : List SignalItem) :
    ∃ a', items.foldlM (Stored.foldItem F iso now) a = .ok a' ∧
      Reads W (items.foldl (Engine.foldItem F.toFloatOps iso now) st) a' := by
  induction items generalizing st a with
  | nil => exact ⟨a, rfl, h⟩
  | cons item items ih =>
    obtain ⟨mid, first, reads⟩ := h.counted now item
    obtain ⟨a', rest, final⟩ := ih reads
    exact ⟨a', by rw [List.foldlM_cons, first]; exact rest, final⟩

end

/-! ### The score -/

section

variable {W : Weights F} {d : Dict FraudTag (TagState F.toFloatOps)} {d' : Dict String (TagRow F)}

theorem weightOf_name (t : FraudTag) : weightOf t.name = t.weight := by
  rw [weightOf, FraudTag.ofName_name]
  rfl

/-- The same terms in another order. -/
theorem massOf_eq (W : Weights F) (h : Dict.Alike (TagIs W) (Dict.renamed FraudTag.name d) d') :
    Stored.massOf F d' = Engine.massOf F.toFloatOps d := by
  have terms := (h.map_perm (f := fun key s => F.mul (F.lit (weightOf key)) s.w)
    (g := fun key row => F.mul (F.lit (weightOf key)) row.w)
    fun _ _ _ tagged => by rw [tagged.w]).map Prod.snd
  rw [Dict.renamed, List.map_map, List.map_map, List.map_map] at terms
  have commutes : RightCommutative F.add := ⟨W.sums⟩
  have sums := terms.foldl_eq (f := F.add) (F.lit 0)
  rw [List.foldl_map, List.foldl_map] at sums
  simp only [Function.comp_apply, weightOf_name] at sums
  exact sums.symm

theorem outcomes_alike (h : Dict.Alike (TagIs W) (Dict.renamed FraudTag.name d) d') :
    Dict.Alike (TagIs W) (Dict.renamed FraudTag.name (d.filter fun e => e.1 ∈ FraudTag.outcome))
      (d'.filter fun e => e.1 ∈ outcomeNames) := by
  rw [Dict.renamed_filter _ d (q := fun e => e.1 ∈ outcomeNames) fun t _ => by
    simp only [mem_outcomeNames]]
  exact h.filter fun _ _ _ _ => rfl

theorem riskScore_eq (h : Dict.Alike (TagIs W) (Dict.renamed FraudTag.name d) d') :
    Stored.riskScore F d' (F.lit 14) = .ok (Engine.riskScore F.toFloatOps d (F.lit 14)) := by
  obtain ⟨score, answered, -⟩ := riskScore_returns d'
  unfold Stored.riskScore at answered ⊢
  unfold Engine.riskScore
  simp only [massOf_eq W h, massOf_eq W (outcomes_alike h)] at answered ⊢
  split
  next => rfl
  next counts =>
    rw [if_neg counts] at answered
    -- nothing overflows, for there is an answer
    split at answered
    · cases answered
    next fits => rw [if_neg fits]

theorem riskTags_perm (h : Dict.Alike (TagIs W) (Dict.renamed FraudTag.name d) d') :
    (Engine.riskTagsOf F.toFloatOps d).Perm (Stored.riskTagsOf F d') := by
  have heavy := h.filter (p := fun e => F.lt (F.lit (1 / 1000000)) e.2.w)
    (q := fun e => F.lt (F.lit (1 / 1000000)) e.2.w) fun _ _ _ tagged => by rw [tagged.w]
  have rounded := heavy.map_perm (f := fun _ s => F.round 4 s.w) (g := fun _ row => F.round 4 row.w)
    fun _ _ _ tagged => by rw [tagged.w]
  have named := Dict.renamed_filter FraudTag.name d
    (p := fun e => F.lt (F.lit (1 / 1000000)) e.2.w) (q := fun e => F.lt (F.lit (1 / 1000000)) e.2.w)
    fun _ _ => rfl
  rw [← named, Dict.renamed, List.map_map] at rounded
  exact rounded

end

/-! ### The windows -/

section

variable {iso : IsoFormat} {now : DateTime}

/-- The entry names a counterparty, and is inside the window. -/
def inWindow (iso : IsoFormat) (window : ℤ) (now : DateTime) (entry : RecentEntry) : Bool :=
  decide (entry.cp ≠ "") && within iso window now (some entry.ts)

theorem dated_filter (entries : List RecentEntry) (window : ℤ) :
    ((dated entries).filter fun e => within iso window now (some e.ts)) =
      entries.filter (inWindow iso window now) := by
  rw [dated, List.filter_filter]
  exact List.filter_congr fun e _ => Bool.and_comm _ _

theorem inside_same {entry : RecentEntry} {x : Json} (same : Same (.obj entry.fields) x)
    (window : ℤ) :
    inside iso window now x = if inWindow iso window now entry then some entry.cp else none := by
  obtain ⟨o, rfl, alike⟩ := same.obj_inv
  have cp : field o "cp" = .str entry.cp := (field_same alike "cp").str_inv
  have ts : field o "ts" = .str entry.ts := (field_same alike "ts").str_inv
  unfold inside datedEntry inWindow
  simp only [cp, ts, asString]
  by_cases blank : entry.cp = ""
  · simp [blank, Option.filter]
  · by_cases kept : within iso window now (some entry.ts) = true
    · simp [blank, kept, Option.filter]
    · simp [blank, kept, Option.filter]

/-- The same counterparties, in the same order. -/
theorem counterparties_same {entries : List RecentEntry} {xs : List Json}
    (same : EntriesAre entries xs) (window : ℤ) :
    xs.filterMap (inside iso window now) =
      (entries.filter (inWindow iso window now)).map (·.cp) := by
  induction same with
  | nil => rfl
  | @cons entry x _ _ first _ ih =>
    rw [List.filterMap_cons, inside_same first window, ih, List.filter_cons]
    cases inWindow iso window now entry <;> rfl

theorem pruned_same {entries : List RecentEntry} {xs : List Json} (same : EntriesAre entries xs)
    (window : ℤ) :
    EntriesAre (entries.filter (inWindow iso window now))
      (xs.filter fun x => (inside iso window now x).isSome) := by
  induction same with
  | nil => exact .nil
  | @cons entry x _ _ first _ ih =>
    rw [List.filter_cons, List.filter_cons, inside_same first window]
    cases inWindow iso window now entry with
    | true => exact .cons first ih
    | false => exact ih

variable {recent : Dict FraudTag (List RecentEntry)} {recent' : Dict String (List Json)}

theorem pruneRecent_alike (h : Dict.Alike EntriesAre (Dict.renamed FraudTag.name recent) recent') :
    Dict.Alike EntriesAre (Dict.renamed FraudTag.name (Engine.pruneRecent iso now recent))
      (Stored.pruneRecent iso now recent') := by
  have windowed : Dict.Alike EntriesAre
      (Dict.renamed FraudTag.name (Dict.mapValues (fun _ entries => (dated entries).filter fun x =>
        within iso 30 now (some x.ts)) recent))
      (Dict.mapValues (fun _ xs => xs.filter fun x => (inside iso 30 now x).isSome) recent') :=
    h.renamed_mapValues FraudTag.name_injective fun _ entries _ same => by
      rw [dated_filter]
      exact pruned_same same 30
  unfold Engine.pruneRecent Stored.pruneRecent
  rw [Dict.renamed_filter _ _ (q := fun e => decide (e.2 ≠ [])) fun _ _ => rfl]
  refine windowed.filter fun _ entries xs same => ?_
  cases same <;> rfl

theorem repeatedTags_eq (h : Dict.Alike EntriesAre (Dict.renamed FraudTag.name recent) recent') :
    Stored.repeatedTags iso now recent' = Engine.repeatedTags iso now recent := by
  have reported := h.filter (p := fun e => 3 ≤
      (((dated e.2).filter fun x => within iso 7 now (some x.ts)).map (·.cp)).dedup.length)
    (q := fun e => 3 ≤ (e.2.filterMap (inside iso 7 now)).dedup.length)
    fun _ entries _ same => by
      simp only [counterparties_same same, dated_filter]
  have names := reported.keys_perm
  have named := Dict.renamed_filter FraudTag.name recent (p := fun e => 3 ≤
      (((dated e.2).filter fun x => within iso 7 now (some x.ts)).map (·.cp)).dedup.length)
    (q := fun e => 3 ≤
      (((dated e.2).filter fun x => within iso 7 now (some x.ts)).map (·.cp)).dedup.length)
    fun _ _ => rfl
  rw [← named, Dict.renamed, List.map_map] at names
  exact sortedSet_eq names.symm

theorem pruneSeen_alike {seen : Dict String SeenEntry} {seen' : Dict String SeenRow}
    (h : Dict.Alike SeenIs seen seen') :
    Dict.Alike SeenIs (Engine.pruneSeen iso now seen) (Stored.pruneSeen iso now seen') := by
  refine h.filter fun _ entry row known => ?_
  rw [known.ts]
  cases entry.ts <;> rfl

end

/-! ### A whole call -/

section

variable {W : Weights F} {st : AccountState F.toFloatOps} {a : Account F} {iso : IsoFormat}
  {now : DateTime}

theorem TagRow.dump_same {s : TagState F.toFloatOps} {row : TagRow F} (tagged : TagIs W s row) :
    Same (.obj (TagState.fields s)) (row.dump F) := by
  obtain ⟨q, written, -, -⟩ := W.written s.w tagged.weight
  have w : Same (.float (F.value s.w)) (.float (F.value s.w)) := by
    rw [written]
    exact .number rfl rfl
  refine .of_alike ⟨by simp [TagState.fields], ?_, fun key => ?_⟩
  · exact Dict.nodup_set (Dict.nodup_set tagged.distinct _ _) _ _
  · rw [Dict.get?_set, Dict.get?_set, tagged.count, tagged.w]
    by_cases weight : key = "w"
    · subst weight
      exact .some w
    · by_cases count : key = "count"
      · subst count
        exact .some (.int _)
      · rw [if_neg weight, if_neg count, tagged.plain key count weight]
        simp only [TagState.fields, Dict.get?, Ne.symm weight, Ne.symm count, if_false]
        exact .none

theorem SeenRow.dump_same {entry : SeenEntry} {row : SeenRow} (known : SeenIs entry row) :
    Same (.obj entry.fields) row.dump := by
  have ts : Same (optional entry.ts) row.ts := known.ts ▸ optional_same _
  refine .of_fields (by simp [SeenEntry.fields]) (.cons ⟨rfl, ?_⟩ (.cons ⟨rfl, ts⟩ .nil))
  rw [known.tags]
  exact .strings _

theorem entries_same {entries : List RecentEntry} {xs : List Json} (same : EntriesAre entries xs) :
    Same (.arr (entries.map fun e => .obj e.fields)) (.arr xs) :=
  .of_forall₂ (List.forall₂_map_left_iff.mpr same)

theorem HoldsAccount.echo {x : Json} (h : HoldsAccount W st x) {jsonb : Jsonb}
    (keeps : jsonb.Keeps) : HoldsAccount W st (jsonb.echo x) :=
  { h with same := keeps _ _ h.same }

/-- What is written is the state, its windows pruned. -/
theorem Reads.dump (h : Reads W st a) (now : DateTime) :
    HoldsAccount W (st.pruned iso now) (a.dump F iso now) := by
  refine ⟨?_, h.weights⟩
  have tags : Same (.obj (Dict.mapValues (fun _ s => .obj (TagState.fields s))
      (Dict.renamed FraudTag.name st.fraudTagStates))) (.obj (a.tags.map fun e => (e.1, e.2.dump F))) :=
    .of_alike (h.tags.mapValues fun _ _ _ tagged => TagRow.dump_same tagged)
  have recent : Same (.obj (Dict.mapValues (fun _ entries => .arr (entries.map fun e =>
      .obj (RecentEntry.fields e)))
        (Dict.renamed FraudTag.name (Engine.pruneRecent iso now st.recent))))
      (.obj ((Stored.pruneRecent iso now a.recent).map fun e => (e.1, .arr e.2))) :=
    .of_alike ((pruneRecent_alike h.recent).mapValues fun _ _ _ same => entries_same same)
  have seen : Same (.obj (Dict.mapValues (fun _ entry => .obj (SeenEntry.fields entry))
      (Engine.pruneSeen iso now st.convSeen)))
      (.obj ((Stored.pruneSeen iso now a.convSeen).map fun e => (e.1, e.2.dump))) :=
    .of_alike ((pruneSeen_alike h.seen).mapValues fun _ _ _ known => SeenRow.dump_same known)
  have denoms : Same (.obj st.denoms.fields) (.obj [("conversations", .int a.conversations),
      ("moneyAskConversations", .int a.moneyAskConversations)]) := by
    rw [h.conversations, h.moneyAskConversations]
    exact .of_fields (by simp [Denoms.fields]) (.cons ⟨rfl, .int _⟩ (.cons ⟨rfl, .int _⟩ .nil))
  exact .of_fields (by simp [AccountState.fields]) (.cons ⟨rfl, tags⟩ (.cons ⟨rfl, recent⟩
    (.cons ⟨rfl, seen⟩ (.cons ⟨rfl, denoms⟩ (.cons ⟨rfl, .str _⟩ .nil)))))

/-- The same answer, but for the order of the tags, and a state that holds the other. -/
structure AnswersAlike (W : Weights F) (out : SignalsOutput (AccountState F.toFloatOps))
    (out' : SignalsOutput Json) : Prop where
  riskScore : out'.riskScore = out.riskScore
  riskTier : out'.riskTier = out.riskTier
  riskTags : out.riskTags.Perm out'.riskTags
  repeatedAcross : out'.repeatedAcross = out.repeatedAcross
  state : HoldsAccount W out.state out'.state

/-- A call in which each part answers. -/
theorem foldSignals_ok {clock : DateTime} {prev : JsonObject} {items : List SignalItem}
    {tags : Dict String (TagRow F)} {a' : Account F} {score : ℚ} {tier : RiskTier}
    (loads : loadAccount F prev = .ok a)
    (clocks : pinClock clock (Stored.parseIso iso (field prev "lastUpdated")) = now)
    (decays : Stored.decayTags F now (Stored.parseIso iso (field prev "lastUpdated")) a.tags =
      .ok tags)
    (folds : items.foldlM (Stored.foldItem F iso now) { a with tags := tags } = .ok a')
    (scores : Stored.riskScore F a'.tags (F.lit 14) = .ok score) (tiers : tierOf score = .ok tier) :
    foldSignals F iso clock prev items = .ok
      { riskScore := score
        riskTier := tier
        riskTags := Stored.riskTagsOf F a'.tags
        repeatedAcross := Stored.repeatedTags iso now a'.recent
        state := a'.dump F iso now } := by
  subst clocks
  simp only [foldSignals, loads, decays, folds, scores, tiers, bind, Except.bind]
  rfl

variable (iso) in
/-- `process_signals` on what a column holds answers what it answers on the state. -/
theorem processSignals_held {prev : Option (AccountState F.toFloatOps)} {x : Option Json}
    (held : Option.Rel (HoldsAccount W) prev x) (clock : DateTime)
    (signals outcomes : List SignalItem) :
    ∃ out out', Engine.processSignals F.toFloatOps iso clock prev signals outcomes = .ok out ∧
      Stored.processSignals F iso clock x signals outcomes = .ok out' ∧ AnswersAlike W out out' := by
  obtain ⟨entries, a, read, loaded, reads, last⟩ : ∃ entries a, stateOf x = .ok entries ∧
      loadAccount F entries = .ok a ∧ Reads W (prev.getD (.empty F.toFloatOps)) a ∧
      field entries "lastUpdated" = optional (prev.getD (.empty F.toFloatOps)).lastUpdated := by
    cases held with
    | none => exact ⟨[], _, rfl, rfl, ⟨.nil, .nil, .nil, rfl, rfl⟩, rfl⟩
    | some held =>
      obtain ⟨entries, a, rfl, loaded, reads, last⟩ := held.load
      exact ⟨entries, a, rfl, loaded, reads, last⟩
  have clocks : Stored.parseIso iso (field entries "lastUpdated") =
      (prev.getD (.empty F.toFloatOps)).lastUpdated.bind (Risk.parseIso iso) := by
    rw [last]
    cases (prev.getD (.empty F.toFloatOps)).lastUpdated <;> rfl
  obtain ⟨tags, decays, aged⟩ := reads.decay (nowOf iso clock prev)
    ((prev.getD (.empty F.toFloatOps)).lastUpdated.bind (Risk.parseIso iso))
  obtain ⟨a', folds, final⟩ := aged.all_counted iso (nowOf iso clock prev) (signals ++ outcomes)
  change Reads W (foldedOf iso clock prev (signals ++ outcomes)) a' at final
  obtain ⟨tier, found, -⟩ := tierOf_returns (riskScore_lt F.toFloatOps
    (foldedOf iso clock prev (signals ++ outcomes)).fraudTagStates (F.lit 14))
  have now_eq : pinClock clock (Stored.parseIso iso (field entries "lastUpdated")) =
      nowOf iso clock prev := by
    rw [clocks]
    rfl
  have ran := foldSignals_ok loaded now_eq (clocks ▸ decays) folds (riskScore_eq final.tags) found
  have answers : Engine.processSignals F.toFloatOps iso clock prev signals outcomes = .ok
      { riskScore := _
        riskTier := tier
        riskTags := Engine.riskTagsOf F.toFloatOps
          (foldedOf iso clock prev (signals ++ outcomes)).fraudTagStates
        repeatedAcross := Engine.repeatedTags iso (nowOf iso clock prev)
          (foldedOf iso clock prev (signals ++ outcomes)).recent
        state := (foldedOf iso clock prev (signals ++ outcomes)).pruned iso
          (nowOf iso clock prev) } := congrArg (Except.map _) found
  have whole : Stored.processSignals F iso clock x signals outcomes =
      (foldSignals F iso clock entries (signals ++ outcomes)).mapError .raised := by
    rw [Stored.processSignals, read]
    rfl
  exact ⟨_, _, answers, whole.trans (congrArg (Except.mapError _) ran), rfl, rfl,
    riskTags_perm final.tags, repeatedTags_eq final.recent, final.dump (nowOf iso clock prev)⟩

end

end DostReview.Engine
