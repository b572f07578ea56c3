import DostReview.Engine.Reputation

/-!
# What a call of `process_reputation` adds up

The reviews of a call as one tally of its tags' accumulators, and the ranking as a function
of the order in which the tags came and of what they add up to.
-/
namespace DostReview.Engine

open Risk Review

variable {K : Type} [Field K]

namespace TagAccumulators

instance : Zero (TagAccumulators K) := ⟨⟨0, 0, 0, 0⟩⟩

instance : Add (TagAccumulators K) :=
  ⟨fun a b => ⟨a.count + b.count, a.intensitySum + b.intensitySum, a.w + b.w, a.s + b.s⟩⟩

@[simp] theorem count_add (a b : TagAccumulators K) : (a + b).count = a.count + b.count := rfl

instance : AddCommMonoid (TagAccumulators K) where
  add_assoc a b c := TagAccumulators.ext (add_assoc _ _ _) (add_assoc _ _ _) (add_assoc _ _ _)
    (add_assoc _ _ _)
  zero_add a := TagAccumulators.ext (zero_add _) (zero_add _) (zero_add _) (zero_add _)
  add_zero a := TagAccumulators.ext (add_zero _) (add_zero _) (add_zero _) (add_zero _)
  add_comm a b := TagAccumulators.ext (add_comm _ _) (add_comm _ _) (add_comm _ _) (add_comm _ _)
  nsmul := nsmulRec

theorem count_sum (l : List (TagAccumulators K)) : l.sum.count = (l.map (·.count)).sum := by
  induction l with
  | nil => rfl
  | cons a l ih => rw [List.sum_cons, count_add, ih, List.map_cons, List.sum_cons]

end TagAccumulators

variable [LinearOrder K]

section

variable (E : ReputationOps K) (now : DateTime)

/-- What one tag of a review adds under its plain name. -/
def contribution (age : K) (entry : String × K) : String × TagAccumulators K :=
  let weight := reviewWeight E age (isNegative (plain entry.1))
  (plain entry.1, ⟨1, entry.2, weight, adjustedIntensity (plain entry.1) entry.2 * weight⟩)

/-- The tags of a review, none for a blank one. -/
def scoresOf (review : String × Time) : Dict String K :=
  if pyStrip review.1 = "" then [] else (extractTags E (pyStrip review.1)).getD []

/-- The plain tags of a review in the order of the reply. -/
def tagsOf (review : String × Time) : List String := (scoresOf E review).map fun e => plain e.1

def contributions (review : String × Time) : List (String × TagAccumulators K) :=
  (scoresOf E review).map (contribution E (reviewAgeDays E now review.2))

/-- The review is blank, or its tags can be extracted. -/
def Readable (review : String × Time) : Prop :=
  pyStrip review.1 = "" ∨ (extractTags E (pyStrip review.1)).isSome

instance (review : String × Time) : Decidable (Readable E review) := by
  unfold Readable
  exact inferInstance

theorem foldTag_entries (age : K) (tags : TagStates K) (entry : String × K) :
    (foldTag E age tags entry).entries = Tally.add tags.entries (contribution E age entry) := rfl

theorem foldl_foldTag_entries (age : K) (tags : TagStates K) (l : Dict String K) :
    (l.foldl (foldTag E age) tags).entries =
      (l.map (contribution E age)).foldl Tally.add tags.entries := by
  induction l generalizing tags with
  | nil => rfl
  | cons e l ih =>
    rw [List.foldl_cons, ih, foldTag_entries]
    rfl

/-- A review counts and adds what its tags contribute. -/
theorem foldReview_of_readable {review : String × Time} (readable : Readable E review)
    (acc : ℕ × TagStates K) :
    ∃ tags, foldReview E now acc review =
        some (acc.1 + if pyStrip review.1 = "" then 0 else 1, tags) ∧
      tags.entries = (contributions E now review).foldl Tally.add acc.2.entries := by
  simp only [foldReview, contributions, scoresOf]
  by_cases blank : pyStrip review.1 = ""
  · exact ⟨acc.2, by simp [blank], by simp [blank]⟩
  · obtain ⟨tags, found⟩ := Option.isSome_iff_exists.mp (readable.resolve_left blank)
    refine ⟨tags.foldl (foldTag E (reviewAgeDays E now review.2)) acc.2, ?_, ?_⟩
    · simp [blank, found]
    · simp [blank, found, foldl_foldTag_entries]

theorem foldReview_of_unreadable {review : String × Time} (unreadable : ¬Readable E review)
    (acc : ℕ × TagStates K) : foldReview E now acc review = none := by
  obtain ⟨blank, failed⟩ := not_or.mp unreadable
  simp [foldReview, blank, Option.not_isSome_iff_eq_none.mp failed]

/-- All reviews of a call, if they can be read. -/
theorem foldReviews_of_readable {reviews : List (String × Time)}
    (readable : ∀ review ∈ reviews, Readable E review) (acc : ℕ × TagStates K) :
    ∃ tags, reviews.foldlM (foldReview E now) acc =
        some (acc.1 + reviews.countP (fun review => pyStrip review.1 ≠ ""), tags) ∧
      tags.entries = (reviews.flatMap (contributions E now)).foldl Tally.add acc.2.entries := by
  induction reviews generalizing acc with
  | nil => exact ⟨acc.2, rfl, rfl⟩
  | cons review reviews ih =>
    obtain ⟨first, later⟩ := List.forall_mem_cons.mp readable
    obtain ⟨tags, folded, entries⟩ := foldReview_of_readable E now first acc
    obtain ⟨tags', folded', entries'⟩ := ih later
      (acc.1 + if pyStrip review.1 = "" then 0 else 1, tags)
    refine ⟨tags', ?_, ?_⟩
    · rw [List.foldlM_cons, folded]
      refine Eq.trans folded' (congrArg (fun n => some (n, tags')) ?_)
      rw [List.countP_cons]
      by_cases blank : pyStrip review.1 = ""
      · simp [blank]
      · simp [blank]
        omega
    · rw [entries', List.flatMap_cons, List.foldl_append, entries]

/-- One review that cannot be read fails the call, wherever it stands. -/
theorem foldReviews_of_unreadable {reviews : List (String × Time)} {review : String × Time}
    (member : review ∈ reviews) (unreadable : ¬Readable E review) (acc : ℕ × TagStates K) :
    reviews.foldlM (foldReview E now) acc = none := by
  induction reviews generalizing acc with
  | nil => cases member
  | cons first reviews ih =>
    rw [List.foldlM_cons]
    cases folded : foldReview E now acc first with
    | none => rfl
    | some acc' =>
      rcases List.mem_cons.mp member with rfl | later
      · rw [foldReview_of_unreadable E now unreadable] at folded
        cases folded
      · exact ih later acc'

end

/-! ### What the reviews add up to -/

/-- The accumulators that come with the state. -/
def storedStates (stored : Option (ReputationState K)) : Dict String (TagAccumulators K) :=
  (stored.getD (.empty K)).tagStates.entries

/-- The tags of the state, in the order of its keys. -/
def storedTags (stored : Option (ReputationState K)) : List String :=
  (storedStates stored).map Prod.fst

section

variable (E : ReputationOps K) (now : DateTime) (stored : Option (ReputationState K))
  (reviews : List (String × Time))

/-- How often a tag is mentioned, before and now. -/
def mentionCount (tag : String) : ℕ :=
  ((Dict.get? (storedStates stored) tag).map (·.count)).getD 0 +
    (reviews.flatMap (tagsOf E)).count tag

/-- The tags in the order of the dictionary that the engine ends with. -/
def tagOrder : List String := Tally.gathered (storedTags stored) (reviews.map (tagsOf E))

/-- The accumulators of a tag at the end. -/
def totalOf (tag : String) : TagAccumulators K :=
  (Dict.get? (agedStates E now (stored.getD (.empty K))).entries tag).getD 0 +
    (((reviews.flatMap (contributions E now)).filter fun e => e.1 = tag).map Prod.snd).sum

end

variable {E : ReputationOps K} {now : DateTime} {stored stored' : Option (ReputationState K)}
  {reviews reviews' : List (String × Time)}

omit [Field K] [LinearOrder K] in
theorem storedTags_nodup (stored : Option (ReputationState K)) : (storedTags stored).Nodup :=
  (stored.getD (.empty K)).tagStates.distinct

theorem validScores_spec {entries : Dict String (Option K)} {tags : Dict String K}
    (h : validScores entries = some tags) :
    (∀ e ∈ tags, e.1 ∈ allTags) ∧ (tags.map Prod.fst).Sublist (entries.map Prod.fst) := by
  induction entries generalizing tags with
  | nil =>
    cases h
    exact ⟨by simp, .slnil⟩
  | cons e entries ih =>
    obtain ⟨tag, score⟩ := e
    simp only [validScores] at h
    split at h
    next member =>
      obtain ⟨x, -, h⟩ := Option.bind_eq_some_iff.mp h
      obtain ⟨rest, found, rfl⟩ := Option.map_eq_some_iff.mp h
      obtain ⟨known, sub⟩ := ih found
      exact ⟨List.forall_mem_cons.mpr ⟨member, known⟩, sub.cons_cons tag⟩
    next =>
      obtain ⟨known, sub⟩ := ih h
      exact ⟨known, sub.cons tag⟩

/-- A review mentions a tag once. -/
theorem tagsOf_nodup (review : String × Time) : (tagsOf E review).Nodup := by
  unfold tagsOf scoresOf
  split
  · exact List.nodup_nil
  · cases found : extractTags E (pyStrip review.1) with
    | none => exact List.nodup_nil
    | some tags =>
      obtain ⟨reply, -, valid⟩ := Option.bind_eq_some_iff.mp found
      obtain ⟨known, sub⟩ := validScores_spec valid
      -- different tags keep different plain names
      have plains : ((tags.map Prod.fst).map plain).Nodup := by
        apply (sub.nodup reply.distinct).map_on
        intro a ha b hb same
        obtain ⟨e, he, rfl⟩ := List.mem_map.mp ha
        obtain ⟨e', he', rfl⟩ := List.mem_map.mp hb
        exact plain_injective (known e he) (known e' he') same
      rw [List.map_map] at plains
      exact plains

variable (now) in
theorem keys_contributions (reviews : List (String × Time)) :
    (reviews.flatMap (contributions E now)).map Prod.fst = reviews.flatMap (tagsOf E) := by
  rw [List.map_flatMap]
  refine congrArg (fun f => reviews.flatMap f) (funext fun review => ?_)
  rw [contributions, List.map_map]
  rfl

theorem decayState_entries (tags : TagStates K) (age : K) :
    ∃ f : String → TagAccumulators K → TagAccumulators K, (∀ tag a, (f tag a).count = a.count) ∧
      (decayState E tags age).entries = Dict.mapValues f tags.entries := by
  by_cases fresh : age ≤ 0
  · rw [decayState, if_pos fresh]
    exact ⟨fun _ a => a, fun _ _ => rfl, (List.map_id tags.entries).symm⟩
  · rw [decayState, if_neg fresh]
    exact ⟨fun tag st =>
      let f := reviewWeight E age (isNegative tag)
      { st with w := st.w * f, s := st.s * f }, fun _ _ => rfl, rfl⟩

variable (E now) in
/-- Ageing keeps the tags, their order and their counts. -/
theorem agedStates_entries (state : ReputationState K) :
    ∃ f : String → TagAccumulators K → TagAccumulators K, (∀ tag a, (f tag a).count = a.count) ∧
      (agedStates E now state).entries = Dict.mapValues f state.tagStates.entries := by
  unfold agedStates
  split
  · exact ⟨fun _ a => a, fun _ _ => rfl, (List.map_id state.tagStates.entries).symm⟩
  · exact decayState_entries _ _

theorem agedStates_keys (stored : Option (ReputationState K)) :
    (agedStates E now (stored.getD (.empty K))).entries.map Prod.fst = storedTags stored := by
  obtain ⟨f, -, eq⟩ := agedStates_entries E now (stored.getD (.empty K))
  rw [eq, Dict.mapValues, List.map_map]
  rfl

/-- The count of a tag at the end is the number of its mentions. -/
theorem totalOf_count (tag : String) :
    (totalOf E now stored reviews tag).count = mentionCount E stored reviews tag := by
  obtain ⟨f, kept, eq⟩ := agedStates_entries E now (stored.getD (.empty K))
  rw [totalOf, mentionCount, TagAccumulators.count_add, eq, Dict.get?_mapValues,
    TagAccumulators.count_sum, ← keys_contributions now]
  congr 1
  · rw [storedStates]
    cases Dict.get? (stored.getD (.empty K)).tagStates.entries tag with
    | none => rfl
    | some a => exact kept tag a
  · -- every contribution counts one
    have ones : ∀ e ∈ reviews.flatMap (contributions E now), e.2.count = 1 := by
      intro e member
      obtain ⟨review, -, member⟩ := List.mem_flatMap.mp member
      obtain ⟨entry, -, rfl⟩ := List.mem_map.mp member
      rfl
    generalize reviews.flatMap (contributions E now) = l at ones
    rw [List.map_map]
    induction l with
    | nil => rfl
    | cons e l ih =>
      obtain ⟨one, later⟩ := List.forall_mem_cons.mp ones
      rw [List.filter_cons, List.map_cons, List.count_cons]
      by_cases here : e.1 = tag
      · simp [here, one, ih later, Nat.add_comm]
      · simp [here, ih later]

/-! ### The ranking -/

/-- A tag with its accumulators at the end. -/
def ending (E : ReputationOps K) (now : DateTime) (stored : Option (ReputationState K))
    (reviews : List (String × Time)) (tag : String) : String × TagAccumulators K :=
  (tag, totalOf E now stored reviews tag)

variable (now) in
/-- The call answers if all its reviews can be read, and what it answers is a function of the
order of the tags and of what they add up to. -/
theorem processReputation_of_readable {input : EngineInput (ReputationState K)}
    (readable : ∀ review ∈ input.reviews, Readable E review) :
    ∃ tags, processReputation E now input = .output (reputationOutput E now input
        ((input.state.getD (.empty K)).totalReviews +
          input.reviews.countP fun review => pyStrip review.1 ≠ "") tags) ∧
      rankedTags tags = (Tally.ranked (mentionCount E input.state input.reviews)
        (tagOrder E input.state input.reviews)).map (ending E now input.state input.reviews) := by
  obtain ⟨tags, folded, entries⟩ := foldReviews_of_readable E now readable
    ((input.state.getD (.empty K)).totalReviews, agedStates E now (input.state.getD (.empty K)))
  refine ⟨tags, by simp only [processReputation, folded], ?_⟩
  have order : tags.entries.map Prod.fst = tagOrder E input.state input.reviews := by
    rw [entries, Tally.keys_foldl_add (agedStates E now _).distinct, agedStates_keys,
      keys_contributions]
    rfl
  have whole : tags.entries = (tagOrder E input.state input.reviews).map
      (ending E now input.state input.reviews) := by
    rw [← order]
    nth_rewrite 1 [Tally.entries_eq tags.distinct]
    apply List.map_congr_left
    intro tag _
    rw [entries, Tally.get?_foldl_add]
    rfl
  have counts : ∀ tag, (ending E now input.state input.reviews tag).2.count =
      mentionCount E input.state input.reviews tag := totalOf_count
  rw [rankedTags, whole, List.filter_map, Tally.ranked]
  simp only [Function.comp_def, counts]
  symm
  apply List.map_insertionSort
  intro a _ b _
  rw [counts, counts]

theorem processReputation_of_unreadable {input : EngineInput (ReputationState K)}
    {review : String × Time} (member : review ∈ input.reviews)
    (unreadable : ¬Readable E review) : processReputation E now input = .error (some true) := by
  simp only [processReputation, foldReviews_of_unreadable E now member unreadable]

/-! ### Another order -/

/-- The same state with its tags in another order: JSONB does not keep that of the keys. -/
structure ReputationState.Reordered (state state' : ReputationState K) : Prop where
  passthrough : state'.passthrough = state.passthrough
  lastUpdated : state'.lastUpdated = state.lastUpdated
  totalReviews : state'.totalReviews = state.totalReviews
  tagStates : state'.tagStates.entries.Perm state.tagStates.entries

omit [Field K] [LinearOrder K] in
theorem ReputationState.Reordered.refl (state : ReputationState K) : state.Reordered state :=
  ⟨rfl, rfl, rfl, .refl _⟩

/-- How the column hands a state back: its tags come in an order that the column chooses. -/
structure Column (K : Type) where
  read : ReputationState K → ReputationState K
  reorders : ∀ state : ReputationState K, state.Reordered (read state)

/-- The order of JSONB: shorter keys come first, those of one length by their bytes. -/
def jsonbColumn (K : Type) : Column K where
  read state :=
    { state with
      tagStates :=
        { entries := state.tagStates.entries.insertionSort fun e e' =>
            e.1.utf8ByteSize < e'.1.utf8ByteSize ∨
              e.1.utf8ByteSize = e'.1.utf8ByteSize ∧ e.1 ≤ e'.1
          distinct :=
            ((List.perm_insertionSort _ _).map _).nodup_iff.mpr state.tagStates.distinct } }
  reorders _ := ⟨rfl, rfl, rfl, List.perm_insertionSort _ _⟩

omit [Field K] [LinearOrder K] in
theorem reordered_getD (same : Option.Rel ReputationState.Reordered stored stored') :
    (stored.getD (.empty K)).Reordered (stored'.getD (.empty K)) := by
  cases same with
  | none => exact .refl _
  | some same => exact same

theorem agedStates_perm {state state' : ReputationState K} (same : state.Reordered state') :
    (agedStates E now state').entries.Perm (agedStates E now state).entries := by
  unfold agedStates
  rw [same.lastUpdated]
  cases state.lastUpdated.bind (parseIso E.iso) with
  | none => exact same.tagStates
  | some last =>
    simp only [decayState]
    split
    · exact same.tagStates
    · exact same.tagStates.map _

section

variable (same : Option.Rel ReputationState.Reordered stored stored')
  (perm : reviews'.Perm reviews)

include same

omit [Field K] [LinearOrder K] in
theorem storedTags_perm : (storedTags stored').Perm (storedTags stored) :=
  (reordered_getD same).tagStates.map _

include perm

theorem mentionCount_reordered :
    mentionCount E stored' reviews' = mentionCount E stored reviews := by
  funext tag
  rw [mentionCount, mentionCount, (perm.flatMap_right _).count_eq, storedStates, storedStates,
    Dict.get?_perm (stored.getD (.empty K)).tagStates.distinct (reordered_getD same).tagStates]

variable (E now) in
/-- What the accumulators add up to does not depend on the order. -/
theorem ending_reordered : ending E now stored' reviews' = ending E now stored reviews := by
  funext tag
  rw [ending, ending, totalOf, totalOf,
    Dict.get?_perm (agedStates E now _).distinct (agedStates_perm (reordered_getD same)),
    (((perm.flatMap_right _).filter _).map _).sum_eq]

theorem tagOrder_perm : (tagOrder E stored' reviews').Perm (tagOrder E stored reviews) :=
  Tally.gathered_perm (storedTags_perm same) (perm.map _)

end

end DostReview.Engine
