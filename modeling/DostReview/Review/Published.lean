import Mathlib.Data.List.Perm.Basic
import Mathlib.Data.Rat.Floor
import DostReview.Library.Rounding
import DostReview.Engine.Mentions

/-!
# What a batch publishes

The reputation that `run_batch` commits for a profile, with the vendored engine, as a function
of the claimed reviews and the stored state; and how far it depends on the order in which the
database returns the reviews and the keys of the stored tags.
-/
namespace DostReview.Review

open Engine

variable {σ : Type} {cfg : Config σ}

/-- What `run_batch` commits for a profile of the batch, if the engine answers. -/
def published (process : EngineInput σ → EngineOutcome σ) (profileId : Uuid)
    (rows : List ReviewRow) (stored : Option σ) : Option (ReputationRow σ) :=
  match process (engineInput profileId (rowsOf profileId rows) stored) with
  | .output out => some (reputationRow profileId out)
  | .error _ => none
  | .raised _ => none

/-- A batch that ends undisturbed leaves what it publishes on file. -/
theorem published_of_run {process : EngineInput σ → EngineOutcome σ}
    {s₀ s₁ s : State σ} {i : ℕ} {batchId p : Uuid}
    {skipped ids : List Uuid} {log : List (Closing σ)} {stats : Stats} (sound : s₀.Sound)
    (ready : s₀.calls[i]? = some (.worker ⟨batchId, .ready⟩))
    (claimed : s₀.step cfg (.act i (.claim skipped ids .ok)) = some s₁)
    (run : State.BatchRun cfg (Isolated process (fun _ _ => false) i) i s₁ (s, log))
    (returned : s.calls[i]? = some (.worker ⟨batchId, .completing stats⟩))
    (member : ∃ row ∈ claimedRows s₀.db batchId ids, row.targetProfileId = p) :
    s.db.reputations.find? p =
      (published process p (claimedRows s₀.db batchId ids)
        ((s₀.db.reputations.find? p).map (·.state))).orElse
          fun _ => s₀.db.reputations.find? p := by
  have follows := Follows.run sound ready claimed run
  obtain ⟨-, reputation, -⟩ := follows.profile (follows.finished returned) member
  rw [reputation, expected, answer, published]
  cases process (engineInput p _ _) with
  | output out => rfl
  | error | raised => rfl

/-- The same number of reviews, and the same tags with the same weights. -/
structure SameWeights (row row' : ReputationRow σ) : Prop where
  totalReviews : row'.totalReviews = row.totalReviews
  weights : ∀ tag, (Dict.get? row'.allTags tag).map (·.weight) =
    (Dict.get? row.allTags tag).map (·.weight)

/-- The same score with its tier, and the same tags that carry a score. -/
structure SameRanking (row row' : ReputationRow σ) : Prop where
  reputation : row'.reputation = row.reputation
  reputationScore : row'.reputationScore = row.reputationScore
  scored : ∀ tag, ((Dict.get? row'.allTags tag).bind (·.score)).isSome =
    ((Dict.get? row.allTags tag).bind (·.score)).isSome

/-! ### What is published of a call -/

variable {K : Type} [Field K] [LinearOrder K] {E : ReputationOps K} {now : Risk.DateTime}
  {stored stored' : Option (ReputationState K)} {rows rows' : List ReviewRow} {p : Uuid}

/-- The reviews of a profile as the engine gets them. -/
abbrev reviewsOf (p : Uuid) (rows : List ReviewRow) : List (String × Time) :=
  (engineInput p (rowsOf p rows) (none : Option Unit)).reviews

/-- The merged tags: a weight for every tag with a count, a score for the first five. -/
theorem get?_mergeTags (input : EngineInput (ReputationState K)) (total : ℕ) {tags : TagStates K}
    {ranked : List String} {f : String → TagAccumulators K}
    (eq : rankedTags tags = ranked.map fun tag => (tag, f tag)) (tag : String) :
    Dict.get? (mergeTags (reputationOutput E now input total tags)) tag =
      if tag ∈ ranked.take 5 then
        some ⟨(f tag).count, some (E.round1 ((f tag).intensitySum / (f tag).count))⟩
      else if tag ∈ ranked then some ⟨(f tag).count, none⟩
      else none := by
  simp only [mergeTags, reputationOutput, eq, ← List.map_take, List.map_map, List.foldl_map,
    Function.comp_apply, topEntry]
  rw [Dict.get?_foldl_set, Dict.get?_foldl_set]
  rfl

section

variable (readable : ∀ review ∈ reviewsOf p rows, Readable E review)

/-- The tags in the order of their rank. -/
abbrev rankOf (E : ReputationOps K) (stored : Option (ReputationState K)) (p : Uuid)
    (rows : List ReviewRow) : List String :=
  Tally.ranked (mentionCount E stored (reviewsOf p rows)) (tagOrder E stored (reviewsOf p rows))

include readable

variable (now stored) in
/-- What is published is a function of what the tags add up to and of their rank. -/
theorem published_of_readable :
    ∃ row, published (processReputation E now) p rows stored = some row ∧
      row.totalReviews = (stored.getD (.empty K)).totalReviews +
        (reviewsOf p rows).countP (fun review => Risk.pyStrip review.1 ≠ "") ∧
      row.reputationScore = scoreFromTop E
        (((rankOf E stored p rows).take 5).map (ending E now stored (reviewsOf p rows))) ∧
      row.reputation = scoreTier row.reputationScore ∧
      ∀ tag, Dict.get? row.allTags tag =
        let a := totalOf E now stored (reviewsOf p rows) tag
        if tag ∈ (rankOf E stored p rows).take 5 then
          some ⟨a.count, some (E.round1 (a.intensitySum / a.count))⟩
        else if tag ∈ rankOf E stored p rows then some ⟨a.count, none⟩
        else none := by
  obtain ⟨tags, answered, ranked⟩ := processReputation_of_readable now
    (show ∀ review ∈ (engineInput p (rowsOf p rows) stored).reviews, Readable E review
      from readable)
  refine ⟨_, by rw [published, answered], rfl, ?_, rfl, fun tag => ?_⟩
  · have top : (rankedTags tags).take 5 =
        ((rankOf E stored p rows).take 5).map (ending E now stored (reviewsOf p rows)) := by
      rw [ranked, ← List.map_take]
      rfl
    exact congrArg (scoreFromTop E) top
  · exact get?_mergeTags _ _ ranked tag

end

theorem published_of_unreadable {review : String × Time} (member : review ∈ reviewsOf p rows)
    (unreadable : ¬Readable E review) :
    published (processReputation E now) p rows stored = none := by
  rw [published, processReputation_of_unreadable
    (show review ∈ (engineInput p (rowsOf p rows) stored).reviews from member) unreadable]

/-! ### Another order -/

theorem reviewsOf_perm (perm : rows'.Perm rows) : (reviewsOf p rows').Perm (reviewsOf p rows) :=
  (perm.filter _).map _

theorem rankOf_perm (same : Option.Rel ReputationState.Reordered stored stored')
    (perm : rows'.Perm rows) : (rankOf E stored' p rows').Perm (rankOf E stored p rows) := by
  have sorted := Tally.ranked_perm (mentionCount E stored (reviewsOf p rows))
    (tagOrder E stored (reviewsOf p rows))
  have sorted' := Tally.ranked_perm (mentionCount E stored' (reviewsOf p rows'))
    (tagOrder E stored' (reviewsOf p rows'))
  rw [mentionCount_reordered same (reviewsOf_perm perm)] at sorted'
  rw [rankOf, mentionCount_reordered same (reviewsOf_perm perm)]
  exact sorted'.trans (((tagOrder_perm same (reviewsOf_perm perm)).filter _).trans sorted.symm)

variable (now stored stored') in
theorem published_of_not_readable (h : ¬∀ review ∈ reviewsOf p rows, Readable E review)
    (reviews : (reviewsOf p rows').Perm (reviewsOf p rows)) :
    published (processReputation E now) p rows stored = none ∧
      published (processReputation E now) p rows' stored' = none := by
  obtain ⟨review, mem, unreadable⟩ : ∃ review ∈ reviewsOf p rows, ¬Readable E review := by
    simpa using h
  exact ⟨published_of_unreadable mem unreadable,
    published_of_unreadable (reviews.mem_iff.mpr mem) unreadable⟩

/-- The score does not depend on the order of the first places. -/
theorem scoreFromTop_perm {top top' : List (String × TagAccumulators K)} (perm : top'.Perm top) :
    scoreFromTop E top' = scoreFromTop E top := by
  rw [scoreFromTop, scoreFromTop, (perm.map _).sum_eq, (perm.map (·.2.s)).sum_eq]

theorem tagOrder_nodup (reviews : List (String × Time)) : (tagOrder E stored reviews).Nodup :=
  Tally.nodup_eraseDups _

theorem rankOf_nodup : (rankOf E stored p rows).Nodup :=
  (Tally.ranked_perm _ _).nodup_iff.mpr ((tagOrder_nodup _).filter _)

section

variable (same : Option.Rel ReputationState.Reordered stored stored') (perm : rows'.Perm rows)

include same perm

/-- The number of reviews and the weights do not depend on the order. -/
theorem published_sameWeights :
    Option.Rel SameWeights (published (processReputation E now) p rows stored)
      (published (processReputation E now) p rows' stored') := by
  have reviews := reviewsOf_perm (p := p) perm
  by_cases readable : ∀ review ∈ reviewsOf p rows, Readable E review
  · have readable' : ∀ review ∈ reviewsOf p rows', Readable E review := fun review mem =>
      readable review (reviews.mem_iff.mp mem)
    obtain ⟨row, eq, total, -, -, tags⟩ :=
      published_of_readable now stored readable
    obtain ⟨row', eq', total', -, -, tags'⟩ :=
      published_of_readable now stored' readable'
    rw [eq, eq']
    refine .some ⟨?_, fun tag => ?_⟩
    · rw [total, total', (reordered_getD same).totalReviews, reviews.countP_eq]
    · have ends := congrArg Prod.snd (congrFun (ending_reordered E now same reviews) tag)
      simp only [ending] at ends
      have weight : ∀ (ranked : List String) (a : TagAccumulators K) (score : ℚ),
          (if tag ∈ ranked.take 5 then some (⟨a.count, some score⟩ : TagEntry)
            else if tag ∈ ranked then some ⟨a.count, none⟩ else none).map (·.weight) =
          if tag ∈ ranked then some (a.count : ℚ) else none := by
        intro ranked a score
        by_cases first : tag ∈ ranked.take 5
        · simp [first, List.mem_of_mem_take first]
        · by_cases counted : tag ∈ ranked <;> simp [first, counted]
      rw [tags tag, tags' tag, weight, weight, ends]
      simp only [(rankOf_perm same perm).mem_iff]
  · obtain ⟨none, none'⟩ := published_of_not_readable now stored stored' readable reviews
    rw [none, none']
    exact .none

/-- The ranking is the same if the same tags come first, and only then. -/
theorem published_sameRanking_iff (readable : ∀ review ∈ reviewsOf p rows, Readable E review) :
    Option.Rel SameRanking (published (processReputation E now) p rows stored)
        (published (processReputation E now) p rows' stored') ↔
      ∀ tag, tag ∈ (rankOf E stored' p rows').take 5 ↔ tag ∈ (rankOf E stored p rows).take 5 := by
  have reviews := reviewsOf_perm (p := p) perm
  have readable' : ∀ review ∈ reviewsOf p rows', Readable E review := fun review mem =>
    readable review (reviews.mem_iff.mp mem)
  obtain ⟨row, eq, -, score, tier, tags⟩ :=
    published_of_readable now stored readable
  obtain ⟨row', eq', -, score', tier', tags'⟩ :=
    published_of_readable now stored' readable'
  have scored : ∀ (ranked : List String) (tag : String) (a : TagAccumulators K) (x : ℚ),
      ((if tag ∈ ranked.take 5 then some (⟨a.count, some x⟩ : TagEntry)
        else if tag ∈ ranked then some ⟨a.count, none⟩ else none).bind (·.score)).isSome =
      decide (tag ∈ ranked.take 5) := by
    intro ranked tag a x
    by_cases first : tag ∈ ranked.take 5
    · simp [first]
    · by_cases counted : tag ∈ ranked <;> simp [first, counted]
  rw [eq, eq']
  constructor
  · rintro (⟨⟨-, -, carried⟩⟩ | -) tag
    have carried := carried tag
    rw [tags tag, tags' tag, scored, scored] at carried
    exact decide_eq_decide.mp carried
  · intro first
    have top : ((rankOf E stored' p rows').take 5).Perm ((rankOf E stored p rows).take 5) :=
      (List.perm_ext_iff_of_nodup rankOf_nodup.take rankOf_nodup.take).mpr first
    have points : row'.reputationScore = row.reputationScore := by
      rw [score, score', ending_reordered E now same reviews, scoreFromTop_perm (top.map _)]
    refine .some ⟨by rw [tier, tier', points], points, fun tag => ?_⟩
    rw [tags tag, tags' tag, scored, scored]
    exact decide_eq_decide.mpr (first tag)

end

/-! ### Every order -/

/-- An order of the images comes from an order of the list. -/
theorem exists_perm_of_map_perm {α β : Type} {f : α → β} {l : List α} {images : List β}
    (perm : images.Perm (l.map f)) : ∃ l' : List α, l'.Perm l ∧ l'.map f = images := by
  have both := congrFun (congrFun (List.eq_map_comp_perm f) images) l
  obtain ⟨l', eq, perm'⟩ := both.mpr perm
  exact ⟨l', perm', eq.symm⟩

omit [Field K] [LinearOrder K] in
theorem exists_reordered {order : List String} (perm : order.Perm (storedTags stored)) :
    ∃ stored', Option.Rel ReputationState.Reordered stored stored' ∧ storedTags stored' = order := by
  cases stored with
  | none => exact ⟨none, .none, perm.eq_nil.symm⟩
  | some state =>
    obtain ⟨entries, perm', rfl⟩ := exists_perm_of_map_perm perm
    refine ⟨some { state with tagStates := ⟨entries, ?_⟩ }, .some ⟨rfl, rfl, rfl, perm'⟩, rfl⟩
    exact (perm'.map _).nodup_iff.mpr state.tagStates.distinct

theorem exists_rows {batches : List (List String)}
    (perm : batches.Perm ((reviewsOf p rows).map (tagsOf E))) :
    ∃ rows', rows'.Perm rows ∧ (reviewsOf p rows').map (tagsOf E) = batches := by
  rw [reviewsOf, engineInput, List.map_map] at perm
  obtain ⟨own, perm', rfl⟩ := exists_perm_of_map_perm perm
  -- the profile's own reviews in the new order, those of the others after them
  refine ⟨own ++ rows.filter fun row => row.targetProfileId ≠ p, ?_, ?_⟩
  · have split := List.filter_append_perm (fun row : ReviewRow => row.targetProfileId = p) rows
    simp only [decide_not]
    exact (perm'.append_right _).trans split
  · have mine : own.filter (fun row => row.targetProfileId = p) = own := by
      apply List.filter_eq_self.mpr
      intro row mem
      exact (List.mem_filter.mp (perm'.mem_iff.mp mem)).2
    have others : (rows.filter fun row => row.targetProfileId ≠ p).filter
        (fun row => row.targetProfileId = p) = [] := by
      apply List.filter_eq_nil_iff.mpr
      intro row mem
      simpa using (List.mem_filter.mp mem).2
    rw [reviewsOf, engineInput, rowsOf, List.filter_append, mine, others, List.append_nil,
      List.map_map]

/-- Whatever order the database returns the claimed reviews and the stored tags in, a batch
publishes the same number of reviews and the same weights; and the same score, tier and scored
tags just where ties do not decide which five tags come first. What a batch publishes is what its
run leaves on file: `published_of_run`. -/
theorem published_order :
    (∀ stored' rows', Option.Rel ReputationState.Reordered stored stored' → rows'.Perm rows →
      Option.Rel SameWeights (published (processReputation E now) p rows stored)
        (published (processReputation E now) p rows' stored')) ∧
    ((∀ stored' rows', Option.Rel ReputationState.Reordered stored stored' → rows'.Perm rows →
      Option.Rel SameRanking (published (processReputation E now) p rows stored)
        (published (processReputation E now) p rows' stored')) ↔
      ((∀ review ∈ reviewsOf p rows, Readable E review) →
        Tally.Definite 5 (mentionCount E stored (reviewsOf p rows)) (storedTags stored)
          ((reviewsOf p rows).map (tagsOf E)))) := by
  refine ⟨fun stored' rows' same perm => published_sameWeights same perm, ?_⟩
  by_cases readable : ∀ review ∈ reviewsOf p rows, Readable E review
  · have once : ∀ batch ∈ (reviewsOf p rows).map (tagsOf E), batch.Nodup := by
      intro batch mem
      obtain ⟨review, -, rfl⟩ := List.mem_map.mp mem
      exact tagsOf_nodup review
    rw [forall_prop_of_true readable, ← Tally.top_eq_iff_definite (storedTags_nodup stored) once]
    constructor
    · intro ranking order batches perm perm'
      obtain ⟨stored', same, rfl⟩ := exists_reordered perm
      obtain ⟨rows', perm'', rfl⟩ := exists_rows perm'
      have first := (published_sameRanking_iff same perm'' readable).mp (ranking _ _ same perm'')
      rw [rankOf, mentionCount_reordered same (reviewsOf_perm perm'')] at first
      exact first
    · intro first stored' rows' same perm
      apply (published_sameRanking_iff same perm readable).mpr
      rw [rankOf, mentionCount_reordered same (reviewsOf_perm perm)]
      exact first _ _ (storedTags_perm same) ((reviewsOf_perm perm).map _)
  · refine ⟨fun _ read => absurd read readable, fun _ stored' rows' same perm => ?_⟩
    obtain ⟨none, none'⟩ := published_of_not_readable now stored stored' readable (reviewsOf_perm perm)
    rw [none, none']
    exact .none

def praise : List (String × Option ℚ) :=
  [("#tasty", some 5), ("#hygiene", some 5), ("#friendly", some 5), ("#helpful", some 5),
    ("#punctual", some 5)]

/-- Five tags for a review full of praise, a sixth one with a warning, and none for a review that
says little. Each comes with full intensity, and no review has aged. -/
def sampleOps : ReputationOps ℚ where
  iso := ⟨fun _ => none, fun _ => ""⟩
  halfPow _ := 1
  round1 := Rounding.roundTo 1
  reply text :=
    if text = "Helpful" then some ⟨praise, by decide⟩
    else if text = "Mixed" then some ⟨praise ++ [("#scam", some 5)], by decide⟩
    else if text = "Fine" then some ⟨[], by decide⟩
    else some ⟨[("#scam", some 5)], by decide⟩
  summary _ _ _ _ _ _ := ""

/-- Two reviews of the profile 1, claimed by the batch 77. -/
def sampleRow (id : Uuid) (text : String) : ReviewRow :=
  { gatedRow { sampleReview id 2 with reviewText := text } none 0 with
    status := .processing, batchId := some 77 }

/-- The same two reviews, returned in either order: six tags are mentioned once each, and the
warning is among the first five or not. -/
theorem published_order_warning :
    [sampleRow 8 "Scam", sampleRow 7 "Helpful"].Perm [sampleRow 7 "Helpful", sampleRow 8 "Scam"] ∧
      (published (processReputation sampleOps ⟨0, 0⟩) 1
        [sampleRow 7 "Helpful", sampleRow 8 "Scam"] none).map
          (fun row => (row.reputation, row.reputationScore)) = some ("excellent", 42 / 10) ∧
      (published (processReputation sampleOps ⟨0, 0⟩) 1
        [sampleRow 8 "Scam", sampleRow 7 "Helpful"] none).map
          (fun row => (row.reputation, row.reputationScore)) = some ("very good", 36 / 10) :=
  ⟨.swap _ _ _, by decide +kernel, by decide +kernel⟩

end DostReview.Review
