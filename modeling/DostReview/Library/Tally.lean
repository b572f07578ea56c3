import Mathlib.Data.Finset.Card
import Mathlib.Data.List.Perm.Basic
import Mathlib.Data.List.Sort
import Mathlib.Algebra.BigOperators.Group.List.Basic
import Mathlib.Algebra.Group.Hom.Defs
import DostReview.Library.Lookups

/-!
# Tallies and their first places

Values added up under keys that come in batches, and the keys ranked by decreasing count,
with ties in the order in which the keys came first. When the first places do not depend on
the order of the batches.
-/
namespace Tally

variable {α β : Type}

/-! ### Ranking -/

/-- The keys with a count, by decreasing count; the sort is stable. -/
def ranked (count : α → ℕ) (l : List α) : List α :=
  (l.filter fun a => 0 < count a).insertionSort fun a b => count b ≤ count a

def top (k : ℕ) (count : α → ℕ) (l : List α) : List α := (ranked count l).take k

/-- The keys with this count. -/
abbrev level (count : α → ℕ) (c : ℕ) (l : List α) : List α := l.filter fun a => count a = c

/-- How many keys count more. -/
abbrev ahead (count : α → ℕ) (c : ℕ) (l : List α) : ℕ := (l.filter fun a => c < count a).length

variable {count : α → ℕ} {c k : ℕ} {l : List α}

/-- A list by decreasing count falls into what counts more, as much, and less. -/
theorem split_of_sorted (sorted : l.Pairwise fun a b => count b ≤ count a) (c : ℕ) :
    l = (l.filter fun a => c < count a) ++ level count c l ++ l.filter fun a => count a < c := by
  induction l with
  | nil => rfl
  | cons a l ih =>
    obtain ⟨first, later⟩ := List.pairwise_cons.mp sorted
    have here := ih later
    rcases Nat.lt_trichotomy c (count a) with more | same | less
    · simpa [more, Nat.ne_of_gt more, Nat.not_lt_of_gt more] using here
    · have none : l.filter (fun b => c < count b) = [] := by
        simpa [same] using first
      rw [none] at here
      simpa [same.symm, none, same ▸ none] using here
    · have none : l.filter (fun b => c < count b) = [] := by
        simpa using fun b mem => (first b mem).trans less.le
      have none' : level count c l = [] := by
        simpa using fun b mem => Nat.ne_of_lt ((first b mem).trans_lt less)
      rw [none, none'] at here
      simpa [less, none, none', Nat.ne_of_lt less, Nat.not_lt_of_gt less] using here

theorem ranked_perm (count : α → ℕ) (l : List α) :
    (ranked count l).Perm (l.filter fun a => 0 < count a) := List.perm_insertionSort _ _

theorem ranked_sorted (count : α → ℕ) (l : List α) :
    (ranked count l).Pairwise fun a b => count b ≤ count a :=
  have : Std.Total fun a b : α => count b ≤ count a := ⟨fun _ _ => Nat.le_total _ _⟩
  have : IsTrans α fun a b => count b ≤ count a := ⟨fun _ _ _ h h' => Nat.le_trans h' h⟩
  List.pairwise_insertionSort _ _

theorem level_length {l' : List α} (perm : l'.Perm l) :
    (level count c l').length = (level count c l).length := (perm.filter _).length_eq

/-- The sort is stable: keys with the same count stay in their order. -/
theorem level_ranked (positive : 0 < c) : level count c (ranked count l) = level count c l := by
  have counted : level count c l = level count c (l.filter fun a => 0 < count a) := by
    rw [level, level, List.filter_filter]
    apply List.filter_congr
    intro a _
    by_cases same : count a = c <;> simp [same, positive]
  rw [counted]
  have tied : (level count c (l.filter fun a => 0 < count a)).Pairwise
      fun a b => count b ≤ count a := by
    apply List.Pairwise.imp_of_mem ?_ (List.pairwise_of_forall fun _ _ => trivial)
    intro a b ha hb _
    simp only [List.mem_filter, decide_eq_true_eq] at ha hb
    exact (hb.2.trans ha.2.symm).le
  have sub := (List.sublist_insertionSort tied List.filter_sublist).filter
    fun a => decide (count a = c)
  rw [List.filter_filter] at sub
  simp only [Bool.and_self] at sub
  exact (sub.eq_of_length ((ranked_perm count l).filter _).length_eq.symm).symm

theorem ahead_ranked : ahead count c (ranked count l) = ahead count c l := by
  rw [ahead, ahead, ((ranked_perm count l).filter _).length_eq, List.filter_filter]
  congr 1
  apply List.filter_congr
  intro a _
  by_cases more : c < count a
  · simp [more, Nat.zero_lt_of_lt more]
  · simp [more]

/-- A key is among the first places if it comes first enough among those that count as much. -/
theorem mem_top {a : α} (counted : 0 < count a) :
    a ∈ top k count l ↔ a ∈ (level count (count a) l).take (k - ahead count (count a) l) := by
  rw [top, split_of_sorted (ranked_sorted count l) (count a), List.append_assoc, List.take_append,
    level_ranked counted, List.mem_append, List.take_append, List.mem_append]
  rw [show ((ranked count l).filter fun b => count a < count b).length =
    ahead count (count a) l from ahead_ranked]
  constructor
  · rintro (more | same | less)
    · simpa using (List.mem_filter.mp (List.mem_of_mem_take more)).2
    · exact same
    · simpa using (List.mem_filter.mp (List.mem_of_mem_take less)).2
  · exact fun same => .inr (.inl same)

theorem counted_of_mem_top {a : α} (member : a ∈ top k count l) : 0 < count a := by
  have counted := (List.mem_insertionSort _).mp (List.mem_of_mem_take member)
  simpa using (List.mem_filter.mp counted).2

/-! ### Who comes first -/

/-- Some keys and the others of a list, none of which counts more; `k` of them, or all. -/
structure First (k : ℕ) (count : α → ℕ) (l first : List α) : Prop where
  others : ∃ later, (first ++ later).Perm l ∧ ∀ a ∈ first, ∀ b ∈ later, count b ≤ count a
  length : first.length = min k l.length

/-- Those that count as much as a key all find a place, or none of them does. -/
def Untied (k : ℕ) (count : α → ℕ) (l : List α) : Prop :=
  ∀ a ∈ l, k ≤ ahead count (count a) l ∨
    ahead count (count a) l + (level count (count a) l).length ≤ k

instance : Decidable (Untied k count l) := by
  unfold Untied
  exact inferInstance

theorem First.perm {l' first : List α} (h : First k count l first) (perm : l'.Perm l) :
    First k count l' first where
  others := by
    obtain ⟨later, all, most⟩ := h.others
    exact ⟨later, all.trans perm.symm, most⟩
  length := by rw [h.length, perm.length_eq]

/-- Without a tie, a key is told by its count whether it comes first. -/
theorem First.mem_iff {first : List α} (h : First k count l first) (untied : Untied k count l)
    {a : α} : a ∈ first ↔ a ∈ l ∧ ahead count (count a) l < k := by
  obtain ⟨later, perm, most⟩ := h.others
  have ranks : (first.filter fun b => count a < count b).length +
      (later.filter fun b => count a < count b).length = ahead count (count a) l := by
    rw [← List.length_append, ← List.filter_append]
    exact (perm.filter _).length_eq
  have ties : (level count (count a) first).length + (level count (count a) later).length =
      (level count (count a) l).length := by
    rw [← List.length_append, ← List.filter_append]
    exact (perm.filter _).length_eq
  have among := h.length
  constructor
  · intro member
    refine ⟨perm.subset (List.mem_append_left _ member), ?_⟩
    -- whoever counts more comes first too, and `a` is one more
    have none : later.filter (fun b => count a < count b) = [] := by
      simpa using most a member
    have fewer : (first.filter fun b => count a < count b).length < first.length := by
      refine lt_of_le_of_ne (List.length_filter_le _ _) fun all => ?_
      have self := List.length_filter_eq_length_iff.mp all a member
      simp at self
    rw [none, List.length_nil] at ranks
    omega
  · rintro ⟨member, open_⟩
    by_contra late
    have there : a ∈ later := (List.mem_append.mp (perm.symm.subset member)).resolve_left late
    -- all that come first count as much as `a`, which is one more
    have split : first.length ≤ (first.filter fun b => count a < count b).length +
        (level count (count a) first).length := by
      have all := List.length_eq_length_filter_add (l := first) fun b => decide (count a < count b)
      have rest : (first.filter fun b => !decide (count a < count b)) =
          level count (count a) first := by
        apply List.filter_congr
        intro b within
        have least := most b within a there
        by_cases more : count a < count b
        · simp [more, Nat.ne_of_gt more]
        · simp [more]
          omega
      rw [rest] at all
      exact all.le
    have more : 0 < (level count (count a) later).length :=
      List.length_pos_of_mem (List.mem_filter.mpr ⟨there, decide_eq_true rfl⟩)
    have whole := perm.length_eq
    have one := List.length_pos_of_mem there
    rw [List.length_append] at whole
    have fits := (untied a member).resolve_left open_.not_ge
    omega

/-- Only ties leave a choice. -/
theorem First.unique {first first' : List α} (h : First k count l first)
    (h' : First k count l first') (untied : Untied k count l) (distinct : l.Nodup) :
    first'.Perm first := by
  have nodup : ∀ {some : List α}, First k count l some → some.Nodup := by
    intro some h
    obtain ⟨later, perm, -⟩ := h.others
    exact (List.nodup_append.mp (perm.nodup_iff.mpr distinct)).1
  refine (List.perm_ext_iff_of_nodup (nodup h') (nodup h)).mpr fun a => ?_
  rw [h.mem_iff untied, h'.mem_iff untied]

variable [DecidableEq α]

/-! ### Adding up -/

/-- Add a value under a key; a new key comes last. -/
def add [AddCommMonoid β] (d : Dict α β) (e : α × β) : Dict α β :=
  Dict.set d e.1 ((Dict.get? d e.1).getD 0 + e.2)

/-- The keys in the order in which they came first. -/
def gathered (stored : List α) (batches : List (List α)) : List α :=
  (stored ++ batches.flatten).eraseDups

theorem eraseDups_of_nodup {l : List α} (distinct : l.Nodup) : l.eraseDups = l := by
  induction l with
  | nil => rfl
  | cons a l ih =>
    rw [List.nodup_cons] at distinct
    rw [List.eraseDups_cons, List.filter_eq_self.mpr, ih distinct.2]
    intro b later
    simpa using fun same : b = a => distinct.1 (same ▸ later)

theorem nodup_eraseDups (l : List α) : l.eraseDups.Nodup := by
  induction length : l.length using Nat.strong_induction_on generalizing l with
  | _ n ih =>
    cases l with
    | nil => exact List.nodup_nil
    | cons a l =>
      rw [List.eraseDups_cons, List.nodup_cons]
      refine ⟨by simp, ih _ ?_ _ rfl⟩
      exact length ▸ Nat.lt_succ_of_le (List.length_filter_le _ l)

theorem filter_eraseDups (p : α → Bool) (l : List α) :
    l.eraseDups.filter p = (l.filter p).eraseDups := by
  induction length : l.length using Nat.strong_induction_on generalizing l with
  | _ n ih =>
    cases l with
    | nil => rfl
    | cons a l =>
      have shorter : (l.filter fun b => !b == a).length < n :=
        length ▸ Nat.lt_succ_of_le (List.length_filter_le _ l)
      rw [List.eraseDups_cons, List.filter_cons, ih _ shorter _ rfl, List.filter_cons]
      by_cases kept : p a = true
      · rw [if_pos kept, if_pos kept, List.eraseDups_cons, List.filter_comm]
      · rw [if_neg kept, if_neg kept, List.filter_filter]
        -- what is dropped as a repetition of `a` fails the test as well
        congr 1
        apply List.filter_congr
        intro b _
        by_cases same : b = a
        · simp [same, kept]
        · simp [same]

/-! ### What has been added up -/

theorem keys_set (d : Dict α β) (key : α) (value : β) :
    (Dict.set d key value).map Prod.fst =
      if key ∈ d.map Prod.fst then d.map Prod.fst else d.map Prod.fst ++ [key] := by
  induction d with
  | nil => rfl
  | cons e d ih =>
    obtain ⟨k, v⟩ := e
    by_cases here : k = key
    · simp [Dict.set, here]
    · simp only [Dict.set, here, if_false, List.map_cons, ih, List.mem_cons, Ne.symm here, false_or]
      split <;> rfl

/-- A dictionary is the list of its keys with what they map to. -/
theorem entries_eq [Zero β] {d : Dict α β} (distinct : (d.map Prod.fst).Nodup) :
    d = (d.map Prod.fst).map fun k => (k, (Dict.get? d k).getD 0) := by
  rw [List.map_map]
  nth_rewrite 1 [← List.map_id d]
  apply List.map_congr_left
  intro e member
  rw [Function.comp_apply, Dict.get?_of_mem distinct member]
  rfl

section

variable [AddCommMonoid β]

theorem keys_foldl_add {d : Dict α β} (distinct : (d.map Prod.fst).Nodup) (l : List (α × β)) :
    (l.foldl add d).map Prod.fst = (d.map Prod.fst ++ l.map Prod.fst).eraseDups := by
  induction l generalizing d with
  | nil => simp [eraseDups_of_nodup distinct]
  | cons e l ih =>
    have distinct' : ((add d e).map Prod.fst).Nodup := Dict.nodup_set distinct _ _
    rw [List.foldl_cons, ih distinct', add, keys_set, List.map_cons]
    by_cases old : e.1 ∈ d.map Prod.fst
    · simp only [if_pos old, List.eraseDups_append, List.removeAll, List.filter_cons]
      simp [old]
    · rw [if_neg old, List.append_assoc, List.singleton_append]

/-- What has been added up under a key does not depend on the order. -/
theorem get?_foldl_add (d : Dict α β) (l : List (α × β)) (key : α) :
    (Dict.get? (l.foldl add d) key).getD 0 =
      (Dict.get? d key).getD 0 + ((l.filter fun e => e.1 = key).map Prod.snd).sum := by
  induction l generalizing d with
  | nil => simp
  | cons e l ih =>
    rw [List.foldl_cons, ih, add, Dict.get?_set, List.filter_cons]
    by_cases here : e.1 = key
    · simp [here, add_assoc]
    · simp [here, Ne.symm here]

/-- Adding up keeps no trace of the order of the entries, but for their own order. -/
theorem foldl_add_perm {d d' : Dict α β} (distinct : (d.map Prod.fst).Nodup) (perm : d'.Perm d)
    (l : List (α × β)) : (l.foldl add d').Perm (l.foldl add d) := by
  induction l generalizing d d' with
  | nil => exact perm
  | cons e l ih =>
    have distinct' : (d'.map Prod.fst).Nodup := (perm.map _).nodup_iff.mpr distinct
    refine ih (Dict.nodup_set distinct _ _) (Dict.perm_of_get? (Dict.nodup_set distinct' _ _)
      (Dict.nodup_set distinct _ _) fun key => ?_)
    rw [add, add, Dict.get?_set, Dict.get?_set, Dict.get?_perm distinct perm,
      Dict.get?_perm distinct perm]

/-- An additive function of the values can be applied before or after adding up. -/
theorem mapValues_foldl_add (f : α → β →+ β) (d : Dict α β) (l : List (α × β)) :
    Dict.mapValues (fun key => f key) (l.foldl add d) =
      (l.map fun e => (e.1, f e.1 e.2)).foldl add (Dict.mapValues (fun key => f key) d) := by
  induction l generalizing d with
  | nil => rfl
  | cons e l ih =>
    rw [List.foldl_cons, ih, List.map_cons, List.foldl_cons]
    congr 1
    rw [add, add, Dict.mapValues_set, Dict.get?_mapValues, map_add]
    cases Dict.get? d e.1 with
    | none => simp
    | some x => rfl

/-- What is added up over all keys is what has come in, whatever key it came under. -/
theorem sum_foldl_add {γ : Type} [AddCommMonoid γ] (f : α → β →+ γ) (d : Dict α β)
    (l : List (α × β)) :
    ((l.foldl add d).map fun e => f e.1 e.2).sum =
      (d.map fun e => f e.1 e.2).sum + (l.map fun e => f e.1 e.2).sum := by
  have one : ∀ (d : Dict α β) (e : α × β), ((add d e).map fun e => f e.1 e.2).sum =
      (d.map fun e => f e.1 e.2).sum + f e.1 e.2 := by
    rintro d ⟨key, value⟩
    induction d with
    | nil => simp [add, Dict.set, Dict.get?]
    | cons e d ih =>
      obtain ⟨k, v⟩ := e
      by_cases here : k = key
      · simp [add, Dict.set, Dict.get?, here, add_assoc, add_comm]
      · simp only [add, Dict.set, Dict.get?, here, if_false, List.map_cons, List.sum_cons] at ih ⊢
        rw [ih, add_assoc]
  induction l generalizing d with
  | nil => simp
  | cons e l ih => rw [List.foldl_cons, ih, one, List.map_cons, List.sum_cons, add_assoc]

end

/-! ### First places in any order -/

/-- The keys of a batch with this count that are not stored. -/
abbrev fresh (count : α → ℕ) (c : ℕ) (stored batch : List α) : List α :=
  batch.filter fun a => count a = c ∧ a ∉ stored

/-- What decides the first `k` places whichever key is stored first and whichever batch comes
first: for every count, the keys that count more take them all, or those stored with this
count fit in what is left, and the batches offer no more fresh keys for the rest than fit. -/
def Definite (k : ℕ) (count : α → ℕ) (stored : List α) (batches : List (List α)) : Prop :=
  ∀ c, 0 < c →
    let places := k - ahead count c (gathered stored batches)
    let left := places - (level count c stored).length
    places = 0 ∨ (level count c stored).length ≤ places ∧
      (batches.flatMap fun batch => (fresh count c stored batch).take left).dedup.length ≤ left

variable {stored stored' : List α} {batches batches' : List (List α)}

theorem mem_gathered {a : α} :
    a ∈ gathered stored batches ↔ a ∈ stored ∨ ∃ batch ∈ batches, a ∈ batch := by
  simp [gathered]

theorem gathered_perm (storedPerm : stored'.Perm stored) (batchesPerm : batches'.Perm batches) :
    (gathered stored' batches').Perm (gathered stored batches) := by
  apply (List.perm_ext_iff_of_nodup (nodup_eraseDups _) (nodup_eraseDups _)).mpr
  intro a
  rw [← gathered, ← gathered, mem_gathered, mem_gathered, storedPerm.mem_iff]
  simp only [batchesPerm.mem_iff]

/-- Of the keys with a count come first those stored, then the fresh ones. -/
theorem level_gathered (distinct : stored.Nodup) (count : α → ℕ) (c : ℕ) :
    level count c (gathered stored batches) =
      level count c stored ++ (batches.map (fresh count c stored)).flatten.eraseDups := by
  rw [level, gathered, filter_eraseDups, List.filter_append, List.eraseDups_append,
    eraseDups_of_nodup (distinct.filter _), List.removeAll, List.filter_filter, List.filter_flatten]
  congr 4
  funext batch
  apply List.filter_congr
  intro a _
  by_cases same : count a = c <;> simp [same]

/-- A key among the first of a list without some keys is among as many more of the whole list. -/
theorem mem_take_of_filter {a : α} {removed : List α} {n : ℕ} (distinct : l.Nodup)
    (h : a ∈ (l.filter fun b => b ∉ removed).take n) : a ∈ l.take (n + removed.length) := by
  induction l generalizing n removed with
  | nil => simp at h
  | cons b l ih =>
    rw [List.nodup_cons] at distinct
    rw [List.filter_cons] at h
    by_cases here : b ∈ removed
    · -- what is removed at `b` cannot be removed once more
      have others : l.filter (fun x => x ∉ removed) = l.filter fun x => x ∉ removed.erase b := by
        apply List.filter_congr
        intro x mem
        have other : x ≠ b := fun same => distinct.1 (same ▸ mem)
        simp [List.mem_erase_of_ne other]
      rw [if_neg (by simpa using here), others] at h
      have shorter := List.length_erase_of_mem here
      have positive := List.length_pos_of_mem here
      obtain ⟨m, eq⟩ : ∃ m, n + removed.length = m + 1 := ⟨n + removed.length - 1, by omega⟩
      rw [eq, List.take_succ_cons]
      have later := ih distinct.2 h
      rw [show n + (removed.erase b).length = m by omega] at later
      exact List.mem_cons_of_mem _ later
    · rw [if_pos (by simpa using here)] at h
      cases n with
      | zero => simp at h
      | succ n =>
        rw [show n + 1 + removed.length = n + removed.length + 1 by omega, List.take_succ_cons]
        rcases List.mem_cons.mp h with rfl | later
        · exact List.mem_cons_self
        · exact List.mem_cons_of_mem _ (ih distinct.2 later)

/-- A key among the first of all is among the first of its batch. -/
theorem mem_batch_of_first {n : ℕ} {a : α} (distinct : ∀ batch ∈ batches, batch.Nodup)
    (h : a ∈ batches.flatten.eraseDups.take n) : ∃ batch ∈ batches, a ∈ batch.take n := by
  induction batches with
  | nil => simp at h
  | cons batch batches ih =>
    obtain ⟨here, later⟩ := List.forall_mem_cons.mp distinct
    rw [List.flatten_cons, List.eraseDups_append, eraseDups_of_nodup here, List.take_append,
      List.mem_append] at h
    rcases h with first | others
    · exact ⟨batch, List.mem_cons_self, first⟩
    · have enough : batch.length ≤ n := by
        by_contra short
        simp [Nat.sub_eq_zero_of_le (Nat.le_of_not_le short)] at others
      rw [List.removeAll, ← filter_eraseDups] at others
      have beyond : a ∈ (batches.flatten.eraseDups.filter fun b => b ∉ batch).take
          (n - batch.length) := by simpa using others
      have among := mem_take_of_filter (nodup_eraseDups _) beyond
      rw [Nat.sub_add_cancel enough] at among
      obtain ⟨other, mem, first⟩ := ih later among
      exact ⟨other, List.mem_cons_of_mem _ mem, first⟩

/-- With no more first keys in the batches than places, each gets one. -/
theorem mem_first_iff {n : ℕ} {a : α} (distinct : ∀ batch ∈ batches, batch.Nodup)
    (fit : (batches.flatMap (·.take n)).dedup.length ≤ n) :
    a ∈ batches.flatten.eraseDups.take n ↔ ∃ batch ∈ batches, a ∈ batch.take n := by
  refine ⟨mem_batch_of_first distinct, fun ⟨batch, mem, first⟩ => ?_⟩
  have offered : a ∈ (batches.flatMap (·.take n)).dedup :=
    List.mem_dedup.mpr (List.mem_flatMap.mpr ⟨batch, mem, first⟩)
  rcases Nat.lt_or_ge batches.flatten.eraseDups.length n with few | many
  · rw [List.take_of_length_le few.le, List.mem_eraseDups]
    exact List.mem_flatten.mpr ⟨batch, mem, List.mem_of_mem_take first⟩
  · -- the first keys are among those offered, and as many
    have among : batches.flatten.eraseDups.take n ⊆ (batches.flatMap (·.take n)).dedup := by
      intro b hb
      obtain ⟨other, hother, early⟩ := mem_batch_of_first distinct hb
      exact List.mem_dedup.mpr (List.mem_flatMap.mpr ⟨other, hother, early⟩)
    have sub := List.subperm_of_subset (nodup_eraseDups batches.flatten).take among
    have all := sub.perm_of_length_le (by rw [List.length_take, Nat.min_eq_left many]; exact fit)
    exact all.mem_iff.mpr offered

/-- A batch that comes first has its first keys among the first of all. -/
theorem mem_first_of_cons {n : ℕ} {a : α} {batch : List α} (distinct : batch.Nodup)
    (h : a ∈ batch.take n) : a ∈ (batch :: batches).flatten.eraseDups.take n := by
  rw [List.flatten_cons, List.eraseDups_append, eraseDups_of_nodup distinct, List.take_append]
  exact List.mem_append_left _ h

theorem fresh_congr (storedPerm : stored'.Perm stored) (batch : List α) :
    fresh count c stored' batch = fresh count c stored batch := by
  simp only [fresh, storedPerm.mem_iff]

theorem nodup_fresh (distinct : ∀ batch ∈ batches, batch.Nodup) :
    ∀ batch ∈ batches.map (fresh count c stored), batch.Nodup := by
  intro batch mem
  obtain ⟨whole, hwhole, rfl⟩ := List.mem_map.mp mem
  exact (distinct whole hwhole).filter _

theorem ahead_gathered (storedPerm : stored'.Perm stored) (batchesPerm : batches'.Perm batches) :
    ahead count c (gathered stored' batches') = ahead count c (gathered stored batches) :=
  ((gathered_perm storedPerm batchesPerm).filter _).length_eq

/-- Where they are definite, the first places can be told without the order. -/
theorem Definite.mem_top_iff (definite : Definite k count stored batches) (distinct : stored.Nodup)
    (distinct' : ∀ batch ∈ batches, batch.Nodup) {a : α} (counted : 0 < count a) :
    a ∈ top k count (gathered stored batches) ↔
      ahead count (count a) (gathered stored batches) < k ∧
        (a ∈ stored ∨ ∃ batch ∈ batches, a ∈ (fresh count (count a) stored batch).take
          (k - ahead count (count a) (gathered stored batches) -
            (level count (count a) stored).length)) := by
  rw [mem_top counted, level_gathered distinct]
  rcases definite (count a) counted with full | ⟨fit, offered⟩
  · rw [full, List.take_zero]
    exact ⟨fun none => absurd none List.not_mem_nil, fun ⟨open_, _⟩ => by omega⟩
  · rw [List.take_append, List.take_of_length_le fit, List.mem_append,
      mem_first_iff (nodup_fresh distinct') (by rwa [List.flatMap_map])]
    have exists_batch : ∀ n, (∃ batch ∈ batches.map (fresh count (count a) stored),
        a ∈ batch.take n) ↔ ∃ batch ∈ batches, a ∈ (fresh count (count a) stored batch).take n := by
      simp
    rw [exists_batch]
    constructor
    · rintro (old | new)
      · have same := List.mem_filter.mp old
        have positive := List.length_pos_of_mem old
        exact ⟨by omega, .inl same.1⟩
      · obtain ⟨batch, mem, first⟩ := new
        have positive := List.length_pos_of_mem first
        rw [List.length_take] at positive
        exact ⟨by omega, .inr ⟨batch, mem, first⟩⟩
    · rintro ⟨-, old | new⟩
      · exact .inl (List.mem_filter.mpr ⟨old, decide_eq_true rfl⟩)
      · exact .inr new

theorem Definite.perm (definite : Definite k count stored batches)
    (storedPerm : stored'.Perm stored) (batchesPerm : batches'.Perm batches) :
    Definite k count stored' batches' := by
  intro c positive
  simp only [ahead_gathered storedPerm batchesPerm, level_length storedPerm,
    fresh_congr storedPerm]
  rw [((batchesPerm.flatMap_right _).dedup).length_eq]
  exact definite c positive

/-- Where a key that is stored first would be cut off, another key is when it is. -/
theorem level_fits (distinct : stored.Nodup) (positive : 0 < c)
    (same : ∀ a, a ∈ top k count (gathered stored.reverse batches) ↔
      a ∈ top k count (gathered stored batches))
    (open_ : ahead count c (gathered stored batches) < k) :
    (level count c stored).length ≤ k - ahead count c (gathered stored batches) := by
  by_contra long
  have perm : stored.reverse.Perm stored := List.reverse_perm stored
  cases whole : level count c stored with
  | nil => simp [whole] at long
  | cons a others =>
    have first : a ∈ level count c stored := whole ▸ List.mem_cons_self
    obtain rfl : count a = c := by simpa using (List.mem_filter.mp first).2
    rw [whole, List.length_cons] at long
    obtain ⟨n, places⟩ : ∃ n, k - ahead count (count a) (gathered stored batches) = n + 1 :=
      ⟨k - ahead count (count a) (gathered stored batches) - 1, by omega⟩
    have chosen : a ∈ top k count (gathered stored batches) := by
      rw [mem_top positive, level_gathered distinct, whole, places]
      exact List.mem_cons_self
    have still := (same a).mpr chosen
    -- the other way round `a` is the last of those stored, behind the last place
    have short : n + 1 - others.reverse.length = 0 := by
      rw [List.length_reverse]
      omega
    rw [mem_top positive, ahead_gathered perm (.refl _), places,
      level_gathered (List.nodup_reverse.mpr distinct), level, List.filter_reverse, ← level, whole,
      List.reverse_cons, List.append_assoc, List.take_append, short, List.take_zero,
      List.append_nil] at still
    have again := List.mem_reverse.mp (List.mem_of_mem_take still)
    exact (List.nodup_cons.mp (whole ▸ distinct.filter _)).1 again

/-- The batches offer no more fresh keys than there are places, if all who can come first do. -/
theorem fresh_fits (distinct : stored.Nodup) (distinct' : ∀ batch ∈ batches, batch.Nodup)
    (positive : 0 < c)
    (same : ∀ batch ∈ batches, ∀ a,
      a ∈ top k count (gathered stored (batch :: batches.erase batch)) ↔
        a ∈ top k count (gathered stored batches))
    (fit : (level count c stored).length ≤ k - ahead count c (gathered stored batches)) :
    let left := k - ahead count c (gathered stored batches) - (level count c stored).length
    (batches.flatMap fun batch => (fresh count c stored batch).take left).dedup.length ≤ left := by
  intro left
  have among : (batches.flatMap fun batch => (fresh count c stored batch).take left).dedup ⊆
      (batches.map (fresh count c stored)).flatten.eraseDups.take left := by
    intro a offered
    obtain ⟨batch, mem, first⟩ := List.mem_flatMap.mp (List.mem_dedup.mp offered)
    obtain ⟨-, new⟩ := List.mem_filter.mp (List.mem_of_mem_take first)
    obtain ⟨rfl, unstored⟩ : count a = c ∧ a ∉ stored := by simpa using new
    have perm : (batch :: batches.erase batch).Perm batches := (List.perm_cons_erase mem).symm
    have chosen : a ∈ top k count (gathered stored (batch :: batches.erase batch)) := by
      rw [mem_top positive, level_gathered distinct, ahead_gathered (.refl _) perm,
        List.take_append, List.mem_append]
      exact .inr (mem_first_of_cons ((distinct' batch mem).filter _) first)
    have still := (same batch mem a).mp chosen
    rw [mem_top positive, level_gathered distinct, List.take_append, List.mem_append] at still
    rcases still with old | now
    · exact absurd (List.mem_filter.mp (List.mem_of_mem_take old)).1 unstored
    · exact now
  have sub := List.subperm_of_subset (List.nodup_dedup _) among
  exact sub.length_le.trans (List.length_take_le _ _)

/-- The first places are the same in every order just where they are definite. -/
theorem top_eq_iff_definite (distinct : stored.Nodup)
    (distinct' : ∀ batch ∈ batches, batch.Nodup) :
    (∀ stored' batches', stored'.Perm stored → batches'.Perm batches →
      ∀ a, a ∈ top k count (gathered stored' batches') ↔
        a ∈ top k count (gathered stored batches)) ↔ Definite k count stored batches := by
  constructor
  · intro same c positive
    dsimp only
    by_cases open_ : ahead count c (gathered stored batches) < k
    · have fit := level_fits distinct positive
        (same _ _ (List.reverse_perm stored) (.refl _)) open_
      exact .inr ⟨fit, fresh_fits distinct distinct' positive
        (fun batch mem => same _ _ (.refl _) (List.perm_cons_erase mem).symm) fit⟩
    · exact .inl (Nat.sub_eq_zero_of_le (Nat.le_of_not_lt open_))
  · intro definite stored' batches' storedPerm batchesPerm a
    by_cases counted : 0 < count a
    · have distinct'' : ∀ batch ∈ batches', batch.Nodup := fun batch mem =>
        distinct' batch (batchesPerm.mem_iff.mp mem)
      rw [(definite.perm storedPerm batchesPerm).mem_top_iff (storedPerm.nodup_iff.mpr distinct)
          distinct'' counted,
        definite.mem_top_iff distinct distinct' counted, ahead_gathered storedPerm batchesPerm,
        level_length storedPerm, storedPerm.mem_iff]
      simp only [batchesPerm.mem_iff, fresh_congr storedPerm]
    · exact ⟨fun h => absurd (counted_of_mem_top h) counted,
        fun h => absurd (counted_of_mem_top h) counted⟩

end Tally
