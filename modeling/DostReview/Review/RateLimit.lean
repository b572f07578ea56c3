import DostReview.Review.Accepted

/-!
# The rate limit

The check counts from `since`, the clock after the lock minus 24 hours, but the row it lets
in bears the transaction's start, which is earlier. A window of 24 hours that holds the
start and begins before `since` is out of the check's sight. Where those windows have room,
no window ever overflows.
-/
namespace DostReview.Review

variable {σ : Type} {cfg : Config σ} {db db' : Db σ} {st : Option (Stmt σ)}

/-- An accepted review of the pair received in the 24 hours from a time on. -/
def inWindow (rater target : Uuid) (x : Time) (row : ReviewRow) : Bool :=
  row.raterProfileId = rater ∧ row.targetProfileId = target ∧ row.status ≠ .gateRejected ∧
    x ≤ row.receivedAt ∧ row.receivedAt < x + day

theorem inWindow_gatedRow {rater target : Uuid} {x : Time} {review : DostReview}
    {eventId : Option Uuid} {start : Time} :
    inWindow rater target x (gatedRow review eventId start) = true ↔
      review.raterProfileId = rater ∧ review.targetProfileId = target ∧ x ≤ start ∧ start < x + day := by
  simp [inWindow, gatedRow]

def windowCount (db : Db σ) (rater target : Uuid) (x : Time) : ℕ :=
  db.reviews.count (inWindow rater target x)

/-- The windows that a call's transaction falls into have room for one more review. -/
def Gate.Room (cfg : Config σ) (db : Db σ) (g : Gate) (start : Time) : Prop :=
  ∀ x, start - day < x → x ≤ start →
    windowCount db g.review.raterProfileId g.review.targetProfileId x <
      cfg.rateLimitPerRaterPerTarget

/-- A passing check has overlooked nothing: each window of 24 hours that holds the
transaction's start and begins before `since` has room as well. -/
def ChecksSeeAll (cfg : Config σ) (s : State σ) : Action σ → Prop
  | .act i (.reply .ok) => ∀ (g : Gate) (start since : Time), s.calls[i]? = some (.gate g) →
      g.phase = .counting start since →
      s.db.reviews.count
        (countsFrom g.review.raterProfileId g.review.targetProfileId since) <
        cfg.rateLimitPerRaterPerTarget →
      ∀ x, start - day < x → x ≤ start → x < since →
        windowCount s.db g.review.raterProfileId g.review.targetProfileId x <
          cfg.rateLimitPerRaterPerTarget
  | _ => True

/-! ### What changes a window -/

theorem Touches.windowCount_le {written : List Uuid} (touch : Touches db written st)
    {rater target : Uuid} {x : Time}
    (outside : ∀ row, st = some (.putReview row) → inWindow rater target x row = false) :
    windowCount (db.after st) rater target x ≤ windowCount db rater target x := by
  cases touch with
  | nothing => exact le_rfl
  | wrote row => exact db.reviews.count_put_le_of_not (outside row rfl)
  | updated st plain spares =>
    -- an UPDATE spares the columns that the window looks at, so its rows were in it before
    refine Table.count_le fun id row' found' holds => ?_
    obtain ⟨row, found, -, rfl⟩ := Stmt.row_before plain found'
    refine ⟨row, found, ?_⟩
    have accepted : row.Accepted := fun rejected => by
      rw [spares id row found rejected] at holds
      simp [inWindow, rejected] at holds
    have same := st.onReview_same row
    rw [same] at holds
    simpa [inWindow, accepted, st.onReview_accepted accepted] using holds

theorem Gate.Admitting.lock {g : Gate} {start : Time} (h : g.Admitting start) :
    g.lock cfg = some (g.pairLock cfg) := by
  rcases h with here | ⟨row, here⟩ <;> simp [Gate.lock, here]

/-- A call comes to admit by the check. -/
theorem Gate.Step.admitting {v : View σ} {m : Move σ} {g : Gate} {phase : GatePhase}
    (step : g.Step cfg v m phase st) {start : Time} (admitting : (g.enter phase).Admitting start) :
    st = none ∧ (g.Admitting start ∨ ∃ since, m = .reply .ok ∧ g.phase = .counting start since ∧
      v.db.reviews.count (countsFrom g.review.raterProfileId g.review.targetProfileId since) <
        cfg.rateLimitPerRaterPerTarget) := by
  cases step with
  | checked verdict start' here =>
    rcases Gate.checked_cases v.db g.review verdict start' with eq | ⟨_, eq⟩ | eq <;>
      simp [Gate.enter, Gate.Admitting, eq] at admitting
  -- the check is the only way in
  | counted start' since here =>
    rcases Gate.counted_cases cfg v.db g.review start' since with eq | ⟨room, eq⟩
    · simp [Gate.enter, Gate.Admitting, eq] at admitting
    · obtain rfl : start' = start := by simpa [Gate.enter, Gate.Admitting, eq] using admitting
      exact ⟨rfl, .inr ⟨since, rfl, here, room⟩⟩
  | inserted start' here free =>
    rcases Gate.inserted_cases v.db g.review g.eventId start' with ⟨row, -, eq⟩ | eq
    · obtain rfl : start' = start := by simpa [Gate.enter, Gate.Admitting, eq] using admitting
      exact ⟨rfl, .inl (.inl here)⟩
    · simp [Gate.enter, Gate.Admitting, eq] at admitting
  | _ => simp [Gate.enter, Gate.Admitting] at admitting

/-! ### The invariant -/

structure State.Limited (cfg : Config σ) (s : State σ) : Prop where
  windows : ∀ rater target x, windowCount s.db rater target x ≤ cfg.rateLimitPerRaterPerTarget
  room : ∀ (i : ℕ) (g : Gate) (start : Time), s.calls[i]? = some (.gate g) → g.Admitting start →
    g.Room cfg s.db start

theorem State.Limited.calm {s : State σ} (h : s.Limited cfg) {written : List Uuid}
    (touch : Touches s.db written st) (plain : ∀ row, st ≠ some (.putReview row)) {i : ℕ}
    {c : Call σ} (other : ∀ g, c ≠ .gate g) :
    State.Limited cfg { s with db := s.db.after st, calls := s.calls.set i c } := by
  -- UPDATEs move no row into a window
  have fewer : ∀ rater target x,
      windowCount (s.db.after st) rater target x ≤ windowCount s.db rater target x :=
    fun _ _ _ => touch.windowCount_le fun row put => absurd put (plain row)
  refine ⟨fun rater target x => (fewer rater target x).trans (h.windows rater target x),
    fun j g start hj admitting x after before => ?_⟩
  rcases Pool.getElem?_set_cases hj with ⟨-, same⟩ | ⟨-, old⟩
  · exact absurd same.symm (other g)
  · exact (fewer _ _ x).trans_lt (h.room j g start old admitting x after before)

theorem State.Limited.gate {s : State σ} (h : s.Limited cfg) (sound : s.Sound)
    (locks : Pool.Exclusive (Call.lock cfg) s.calls) {i : ℕ} {m : Move σ} {g : Gate}
    {phase : GatePhase} (here : s.calls[i]? = some (.gate g))
    (step : g.Step cfg (s.view cfg i) m phase st) (sees : ChecksSeeAll cfg s (.act i m)) :
    State.Limited cfg
      { s with db := s.db.after st, calls := s.calls.set i (.gate (g.enter phase)) } := by
  have touch := sound.gate here step
  -- a row that enters a window is the one this call was admitted for
  have entering : ∀ rater target x row, st = some (.putReview row) →
      inWindow rater target x row = true →
      ∃ start, g.Admitting start ∧ row = gatedRow g.review g.eventId start := by
    intro rater target x row put inside
    refine (step.put_cases sound.clean (sound.calls _ _ here) put).resolve_left fun rejected => ?_
    simp [inWindow, rejected] at inside
  refine ⟨fun rater target x => ?_, fun j g' start hj admitting => ?_⟩
  · by_cases enters : ∃ row, st = some (.putReview row) ∧ inWindow rater target x row = true
    · obtain ⟨row, put, inside⟩ := enters
      obtain ⟨start, admitting, rfl⟩ := entering rater target x row put inside
      obtain ⟨rfl, rfl, after, before⟩ := inWindow_gatedRow.mp inside
      have room := h.room i g start here admitting x (sub_lt_iff_lt_add.mpr before) after
      have one := s.db.reviews.count_put_le (gatedRow g.review g.eventId start)
        (inWindow g.review.raterProfileId g.review.targetProfileId x)
      rw [put]
      exact one.trans room
    -- what the gate writes otherwise stays out of the window
    · refine (touch.windowCount_le fun row put => ?_).trans (h.windows rater target x)
      exact Bool.eq_false_iff.mpr fun inside => enters ⟨row, put, inside⟩
  · rcases Pool.getElem?_set_cases hj with ⟨-, same⟩ | ⟨other, old⟩
    · cases same
      obtain ⟨rfl, old | ⟨since, rfl, counting, few⟩⟩ := step.admitting admitting
      · exact h.room i g start here old
      · intro x after before
        -- windows from `since` on were counted; the earlier ones are the condition's
        rcases lt_or_ge x since with blind | seen
        · exact sees g start since here counting few x after before blind
        · refine lt_of_le_of_lt (Table.count_le fun id row found inside => ⟨row, found, ?_⟩) few
          simp only [inWindow, decide_eq_true_eq] at inside
          simp only [countsFrom, decide_eq_true_eq]
          exact ⟨inside.1, inside.2.1, seen.trans inside.2.2.2.1, inside.2.2.1⟩
    · intro x after before
      refine (touch.windowCount_le fun row put => ?_).trans_lt
        (h.room j g' start old admitting x after before)
      -- two calls of one pair cannot both hold its lock
      refine Bool.eq_false_iff.mpr fun inside => other ?_
      obtain ⟨start', mine, rfl⟩ := entering _ _ x row put inside
      obtain ⟨rater, target, -⟩ := inWindow_gatedRow.mp inside
      refine locks j i _ _ (g'.pairLock cfg) old here admitting.lock ?_
      rw [show g'.pairLock cfg = g.pairLock cfg by simp only [Gate.pairLock, rater, target]]
      exact mine.lock

theorem State.limited {s : State σ} (reachable : Reachable cfg (ChecksSeeAll cfg) s) :
    s.Limited cfg := by
  refine Runs.Reachable.invariant (fun s init => ?_) (fun s a s' hr h step sees => ?_) reachable
  · obtain ⟨empty, none⟩ := init
    refine ⟨fun _ _ _ => ?_, by simp [none]⟩
    simp [windowCount, empty, Db.empty, Table.empty, Table.count]
  have sound := State.sound hr
  cases State.stepped step with
  | tick => exact ⟨h.windows, h.room⟩
  | request r =>
    refine ⟨h.windows, fun j g start hj admitting => ?_⟩
    rcases Pool.getElem?_append_cases hj with ⟨-, same⟩ | old
    · cases r <;> cases same
      simp [Gate.Admitting] at admitting
    · exact h.room j g start old admitting
  | gate i m g phase st here gs => exact h.gate sound (State.locks_exclusive hr) here gs sees
  | worker i m w phase st here ws =>
    have touch := ws.touches (sound.calls _ _ here)
    exact h.calm touch ws.plain (by simp)
  | starter i m b phase st here bs => exact h.calm bs.touches bs.plain (by simp)

/-- Where every passing check has seen all the windows its row falls into, no pair has more
than the limit of accepted reviews in any 24 hours. -/
theorem windows_limited {s : State σ} (reachable : State.Reachable cfg (ChecksSeeAll cfg) s)
    (rater target : Uuid) (x : Time) :
    windowCount s.db rater target x ≤ cfg.rateLimitPerRaterPerTarget :=
  (State.limited reachable).windows rater target x

/-- Where the table has fewer rows than the limit, every window has room. -/
theorem checksSeeAll_of_few {s : State σ} {a : Action σ}
    (few : s.db.reviews.rows.length < cfg.rateLimitPerRaterPerTarget) : ChecksSeeAll cfg s a := by
  unfold ChecksSeeAll
  split
  · intro g start since here counting room x after before blind
    exact List.countP_le_length.trans_lt few
  · trivial

/-- The second transaction starts a second before the first review is a day old, waits two seconds
for the lock, and reads the clock only then. -/
def lateCheck : List (Action ℕ) :=
  .request (.gateAndStore (sampleReview 7 2) none) :: untilCheck 0 ++ checkAndCommit 0 ++
    [.tick (24 * 3600 * 1000000 - 1000000), .request (.gateAndStore (sampleReview 8 2) none),
      .act 1 (.onboard .disabled), .act 1 (.reply .ok), .tick 2000000, .act 1 (.reply .ok),
      .act 1 (.reply .ok), .act 1 .clock] ++ checkAndCommit 1

/-- Under the default limit of 5 the check overlooks the first review, but the windows have room:
both reviews are accepted, and both lie in the first of them. -/
theorem windows_limited_late : ∃ s : State ℕ,
    Runs.perform (State.step defaults) .start lateCheck = some s ∧
    windowCount s.db 2 1 0 = 2 ∧ ∀ x, windowCount s.db 2 1 x ≤ 5 := by
  obtain ⟨s, guarded, run, both⟩ : ∃ s, Runs.performGuarded (State.step defaults)
      (fun s _ => s.db.reviews.rows.length < 5) .start lateCheck = some s ∧
      Runs.perform (State.step defaults) .start lateCheck = some s ∧ windowCount s.db 2 1 0 = 2 :=
    ⟨_, rfl, rfl, rfl⟩
  have start : Runs.Reachable State.Init (State.step defaults)
      (fun s _ => s.db.reviews.rows.length < 5) State.start := .start ⟨rfl, rfl⟩
  have reached : State.Reachable defaults (ChecksSeeAll defaults) s :=
    Runs.Reachable.mono (fun _ _ => checksSeeAll_of_few) (start.performGuarded guarded)
  exact ⟨s, run, both, windows_limited reached 2 1⟩

/-- Under a limit of one review a day, the same steps let in a second one. -/
theorem window_overflows : ∃ s : State ℕ,
    State.Reachable { defaults with rateLimitPerRaterPerTarget := 1 } Runs.Anything s ∧
      windowCount s.db 2 1 0 = 2 := by
  have run : Runs.perform (State.step { defaults with rateLimitPerRaterPerTarget := 1 }) .start
    lateCheck = some _ := rfl
  exact ⟨_, State.reachable_of_run run, rfl⟩

end DostReview.Review
