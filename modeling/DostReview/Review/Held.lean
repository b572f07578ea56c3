import DostReview.Review.Steps

/-!
# What a worker holds

The rows that a batch runner carries in memory stand for accepted reviews of the profile
in hand: the claim took them, and nothing that happens to the table afterwards can make
them stand for anything else.
-/
namespace DostReview.Review

variable {σ : Type}

/-! ### Grouping -/

theorem groupByTarget_snoc (rows : List ReviewRow) (row : ReviewRow) :
    groupByTarget (rows ++ [row]) = Dict.set (groupByTarget rows) row.targetProfileId
      ((Dict.get? (groupByTarget rows) row.targetProfileId).getD [] ++ [row]) := by
  simp only [groupByTarget, List.foldl_append, List.foldl_cons, List.foldl_nil]

theorem groupByTarget_nodup (rows : List ReviewRow) :
    ((groupByTarget rows).map Prod.fst).Nodup := by
  induction rows using List.reverseRecOn with
  | nil => exact List.nodup_nil
  | append_singleton rows row ih =>
    rw [groupByTarget_snoc]
    exact Dict.nodup_set ih _ _

theorem get?_groupByTarget (rows : List ReviewRow) (profileId : Uuid) :
    (Dict.get? (groupByTarget rows) profileId).getD [] =
      rows.filter fun row => row.targetProfileId = profileId := by
  induction rows using List.reverseRecOn with
  | nil => rfl
  | append_singleton rows row ih =>
    rw [groupByTarget_snoc, Dict.get?_set, List.filter_append, ← ih]
    by_cases here : profileId = row.targetProfileId
    · subst here
      simp
    · simp [here, Ne.symm here]

theorem group_eq {rows : List ReviewRow} {g : Uuid × List ReviewRow} (h : g ∈ groupByTarget rows) :
    g.2 = rows.filter fun row => row.targetProfileId = g.1 := by
  rw [← get?_groupByTarget, Dict.get?_of_mem (groupByTarget_nodup rows) h, Option.getD_some]

theorem mem_of_group {rows : List ReviewRow} {g : Uuid × List ReviewRow} (h : g ∈ groupByTarget rows)
    {row : ReviewRow} (mem : row ∈ g.2) : row ∈ rows ∧ row.targetProfileId = g.1 := by
  rw [group_eq h] at mem
  simpa using List.mem_filter.mp mem

/-- A group is there because of a row. -/
theorem target_of_group {rows : List ReviewRow} {g : Uuid × List ReviewRow}
    (h : g ∈ groupByTarget rows) : ∃ row ∈ rows, row.targetProfileId = g.1 := by
  induction rows using List.reverseRecOn with
  | nil => cases h
  | append_singleton rows row ih =>
    rw [groupByTarget_snoc] at h
    rcases Dict.mem_set h with rfl | old
    · exact ⟨row, List.mem_append_right _ List.mem_cons_self, rfl⟩
    · obtain ⟨row', mem, target⟩ := ih old
      exact ⟨row', List.mem_append_left _ mem, target⟩

/-- Two groups have different profiles and share no review. -/
theorem groups_apart {rows : List ReviewRow} (distinct : (rows.map (·.id)).Nodup)
    {before after : List (Uuid × List ReviewRow)} {g g' : Uuid × List ReviewRow}
    (groups : before ++ g :: after = groupByTarget rows) (other : g' ∈ before ++ after) :
    g'.1 ≠ g.1 ∧ ∀ row' ∈ g'.2, ∀ row ∈ g.2, row'.id ≠ row.id := by
  have keys := groupByTarget_nodup rows
  rw [← groups, List.map_append, List.map_cons, List.nodup_middle, ← List.map_append,
    List.nodup_cons] at keys
  have ne : g'.1 ≠ g.1 := fun same => keys.1 (same ▸ List.mem_map_of_mem other)
  refine ⟨ne, fun row' mem' row mem same => ne ?_⟩
  have here : g ∈ groupByTarget rows := by simp [← groups]
  have there : g' ∈ groupByTarget rows := by
    rw [← groups]
    rcases List.mem_append.mp other with earlier | later
    · exact List.mem_append_left _ earlier
    · exact List.mem_append_right _ (List.mem_cons_of_mem _ later)
  -- the id tells the row, and the row its target
  obtain ⟨claimed', target'⟩ := mem_of_group there mem'
  obtain ⟨claimed, target⟩ := mem_of_group here mem
  have eq := List.inj_on_of_nodup_map distinct claimed' claimed same
  rw [← target', ← target, eq]

theorem groupByTarget_perm (rows : List ReviewRow) :
    ((groupByTarget rows).flatMap Prod.snd).Perm rows := by
  induction rows using List.reverseRecOn with
  | nil => exact .refl _
  | append_singleton rows row ih =>
    rw [groupByTarget_snoc]
    exact (Dict.perm_push _ _ _).trans (ih.append_right [row])

theorem mem_group {rows : List ReviewRow} {row : ReviewRow} (h : row ∈ rows) :
    ∃ g ∈ groupByTarget rows, row ∈ g.2 := by
  have grouped : row ∈ (Dict.get? (groupByTarget rows) row.targetProfileId).getD [] := by
    rw [get?_groupByTarget]
    simpa using h
  cases found : Dict.get? (groupByTarget rows) row.targetProfileId with
  | none => simp [found] at grouped
  | some group => exact ⟨_, Dict.mem_of_get? found, by simpa [found] using grouped⟩

/-! ### Soundness of what is held -/

/-- An accepted review of the profile has the row's id. -/
def Held (db : Db σ) (profileId : Uuid) (row : ReviewRow) : Prop :=
  ∃ r, db.reviews.find? row.id = some r ∧ r.Accepted ∧ r.targetProfileId = profileId

/-- The rows of one profile: accepted reviews of it, none twice. -/
structure SoundGroup (db : Db σ) (g : Uuid × List ReviewRow) : Prop where
  held : ∀ row ∈ g.2, Held db g.1 row
  distinct : (g.2.map (·.id)).Nodup

/-- What a group stands for is accepted, so an audit row is not among it. -/
theorem SoundGroup.foreign {db : Db σ} {g : Uuid × List ReviewRow} (sound : SoundGroup db g) {id : Uuid}
    {row held : ReviewRow} (found : db.reviews.find? id = some row)
    (rejected : row.status = .gateRejected) (mem : held ∈ g.2) : row.id ≠ held.id := by
  intro same
  obtain ⟨row', found', accepted, -⟩ := sound.held held mem
  rw [← same, Table.key_of_find? found, found] at found'
  cases found'
  exact accepted rejected

/-- The profile in hand and those to come. -/
def Work.groups (w : Work) : List (Uuid × List ReviewRow) := (w.profileId, w.rows) :: w.rest

def WorkerPhase.Sound (db : Db σ) : WorkerPhase σ → Prop
  | .loading w => ∀ g ∈ w.groups, SoundGroup db g
  | .processing w _ => ∀ g ∈ w.groups, SoundGroup db g
  | .committing w _ _ => ∀ g ∈ w.groups, SoundGroup db g
  | .settling w todo _ _ => (∀ g ∈ w.groups, SoundGroup db g) ∧ todo ⊆ w.rows
  | _ => True

section

variable {db db' : Db σ} {work : Work}

theorem sound_nextProfile {rest : List (Uuid × List ReviewRow)} (stats : Stats)
    (h : ∀ g ∈ rest, SoundGroup db g) : (nextProfile rest stats : WorkerPhase σ).Sound db := by
  cases rest with
  | nil => trivial
  | cons g rest => exact h

theorem sound_settle {todo : List ReviewRow} (willRetry handler : Bool)
    (h : ∀ g ∈ work.groups, SoundGroup db g) (within : todo ⊆ work.rows) :
    (settle work todo willRetry handler : WorkerPhase σ).Sound db := by
  cases todo with
  | nil => exact sound_nextProfile _ fun g hg => h g (List.mem_cons_of_mem _ hg)
  | cons row todo => exact ⟨h, within⟩

theorem sound_handle (h : ∀ g ∈ work.groups, SoundGroup db g) :
    (work.handle : WorkerPhase σ).Sound db :=
  sound_settle _ _ h fun _ h => h

theorem sound_unsettled (handler : Bool) (e : String) (h : ∀ g ∈ work.groups, SoundGroup db g) :
    (unsettled work handler e : WorkerPhase σ).Sound db := by
  cases handler with
  | true => trivial
  | false => exact sound_handle h

theorem Picks.gated {limit : ℕ} {skipped ids : List Uuid} (h : Picks db limit skipped ids)
    {id : Uuid} (picked : id ∈ ids) :
    ∃ row, db.reviews.find? id = some row ∧ row.status = .gated := by
  obtain ⟨row, hrow, rfl⟩ := List.mem_map.mp (h.2.1 id picked)
  have open_ := List.mem_filter.mp hrow
  simp only [decide_eq_true_eq] at open_
  exact ⟨row, Table.find?_of_mem open_.1, open_.2.1⟩

theorem Picks.status {limit : ℕ} {skipped ids : List Uuid} (h : Picks db limit skipped ids)
    {id : Uuid} {row : ReviewRow} (found : db.reviews.find? id = some row) (taken : row.id ∈ ids) :
    row.status = .gated := by
  obtain ⟨row', found', gated⟩ := h.gated taken
  rw [Table.key_of_find? found, found] at found'
  cases found'
  exact gated

/-- A claimed row stands for the review it was claimed from. -/
theorem mem_claimedRows {batchId : Uuid} {ids : List Uuid} {row : ReviewRow}
    (h : row ∈ claimedRows db batchId ids) :
    ∃ r, row.id ∈ ids ∧ db.reviews.find? row.id = some r ∧ r.SameSubmission row := by
  obtain ⟨id, picked, h⟩ := List.mem_filterMap.mp h
  obtain ⟨r, found, rfl⟩ := Option.map_eq_some_iff.mp h
  have key : ((Stmt.claim (σ := σ) batchId ids).onReview r).id = id := by
    rw [Stmt.onReview_id, Table.key_of_find? found]
  exact ⟨r, key ▸ picked, key ▸ found, Stmt.onReview_same _ _⟩

theorem claimedRows_ids (batchId : Uuid) {ids : List Uuid}
    (present : ∀ id ∈ ids, ∃ row, db.reviews.find? id = some row) :
    (claimedRows db batchId ids).map (·.id) = ids :=
  db.reviews.map_key_lookups (Stmt.onReview_id _) present

theorem sound_claimed {batchId : Uuid} {limit : ℕ} {skipped ids : List Uuid}
    (picks : Picks db limit skipped ids) :
    (Worker.claimed (claimedRows db batchId ids) : WorkerPhase σ).Sound db := by
  have ids_eq := claimedRows_ids batchId fun id h =>
    (picks.gated h).imp fun _ found => found.1
  -- a group is a part of the claimed rows, which are accepted and distinct
  refine sound_nextProfile _ fun g hg => ⟨fun row hrow => ?_, ?_⟩
  · rw [group_eq hg] at hrow
    obtain ⟨hrow, target⟩ := List.mem_filter.mp hrow
    obtain ⟨r, picked, found, same⟩ := mem_claimedRows hrow
    obtain ⟨r', found', gated⟩ := picks.gated picked
    obtain rfl := Option.some.inj (found.symm.trans found')
    refine ⟨r, found, by simp [gated], ?_⟩
    rw [same] at target
    simpa using target
  · rw [group_eq hg]
    refine List.Nodup.sublist (List.filter_sublist.map _) ?_
    rw [ids_eq]
    exact picks.1

/-- A step of the runner keeps what it holds sound, on the tables it found. -/
theorem Worker.Step.sound {cfg : Config σ} {v : View σ} {w : Worker σ} {m : Move σ}
    {phase : WorkerPhase σ} {st : Option (Stmt σ)} (step : w.Step cfg v m phase st)
    (h : w.phase.Sound v.db) : phase.Sound v.db := by
  -- after the claim a worker only ever lets go of rows
  cases step with
  | claimed skipped ids here picks => exact sound_claimed picks
  | read work here | output work stored out here =>
    rw [here] at h
    exact h
  | unread work r here | raised work stored e here | uncommitted work stored out r here =>
    rw [here] at h
    exact sound_handle h
  | engineError work stored willRetry here =>
    rw [here] at h
    exact sound_settle _ _ h fun _ h => h
  | committed work stored out here =>
    rw [here] at h
    exact sound_nextProfile _ fun g hg => h g (List.mem_cons_of_mem _ hg)
  | settled work row todo willRetry handler here =>
    rw [here] at h
    exact sound_settle _ _ h.1 fun _ later => h.2 (List.mem_cons_of_mem _ later)
  | unsettled work row todo willRetry handler r e here =>
    rw [here] at h
    exact sound_unsettled _ _ h.1
  | crashed | unclaimed | unloaded | completed | uncompleted | marked | requeued => trivial

/-! ### Frame -/

/-- Accepted reviews stay, accepted and of the same submission. -/
def Keeps (db db' : Db σ) : Prop :=
  ∀ id row, db.reviews.find? id = some row → row.Accepted →
    ∃ row', db'.reviews.find? id = some row' ∧ row'.Accepted ∧ row.SameSubmission row'

theorem SoundGroup.keeps {g : Uuid × List ReviewRow} (h : SoundGroup db g) (keeps : Keeps db db') :
    SoundGroup db' g := by
  refine ⟨fun row hrow => ?_, h.distinct⟩
  obtain ⟨r, found, accepted, target⟩ := h.held row hrow
  obtain ⟨r', found', accepted', same⟩ := keeps _ _ found accepted
  exact ⟨r', found', accepted', by rw [same]; exact target⟩

theorem WorkerPhase.Sound.keeps {phase : WorkerPhase σ} (h : phase.Sound db) (keeps : Keeps db db') :
    phase.Sound db' := by
  cases phase with
  | loading | processing | committing => exact fun g hg => (h g hg).keeps keeps
  | settling => exact ⟨fun g hg => (h.1 g hg).keeps keeps, h.2⟩
  | _ => trivial

end

end DostReview.Review
