import DostReview.Review.Desk

/-!
# The gate is linearizable

Every interleaving of the gate's steps with one another and with the batches shows what the desk
can show. A call is decided at the check that rejects it, or at the commit of its row: what the
check of the rate limit has counted is still right then, as only the holder of the pair's lock adds
to it.
-/
namespace DostReview.Review

variable {σ : Type} {cfg : Config σ} {db db' : Db σ} {st : Option (Stmt σ)}

/-! ### What the service shows -/

/-- What the caller or Onboard sees of a step of a call. -/
def Gate.shown (i : ℕ) (m : Move σ) (phase : GatePhase) : List DeskEvent :=
  match m, phase with
  | .onboard answer, _ => [.consulted i answer]
  | _, .returned result => [.answered i result]
  | _, _ => []

def State.shown (s s' : State σ) : Action σ → List DeskEvent
  | .tick _ => []
  | .request (.gateAndStore review eventId) => [.asked s.calls.length review eventId]
  | .request _ => []
  | .act i m =>
    match s'.calls[i]? with
    | some (.gate g) => Gate.shown i m g.phase
    | _ => []

/-- A step of the service, and what it shows. -/
def State.Shown (cfg : Config σ) (s : State σ) (events : List DeskEvent) (s' : State σ) : Prop :=
  ∃ a, s.step cfg a = some s' ∧ events = s.shown s' a

theorem State.reachable_of_shown {s : State σ} {log : List DeskEvent}
    (run : Traces.Shows State.Init (State.Shown cfg) log s) :
    State.Reachable cfg Runs.Anything s := by
  refine run.invariant (fun s init => .start init) fun s more t reachable step => ?_
  obtain ⟨a, step, -⟩ := step
  exact reachable.next step trivial

/-- A run with what it shows, to be computed. -/
def State.showing (cfg : Config σ) (x : State σ × List DeskEvent) (a : Action σ) :
    Option (State σ × List DeskEvent) :=
  (x.1.step cfg a).map fun s => (s, x.2 ++ x.1.shown s a)

theorem State.shows_of_perform {x y : State σ × List DeskEvent} {actions : List (Action σ)}
    (before : Traces.Shows State.Init (State.Shown cfg) x.2 x.1)
    (run : Runs.perform (State.showing cfg) x actions = some y) :
    Traces.Shows State.Init (State.Shown cfg) y.2 y.1 := by
  induction actions generalizing x with
  | nil =>
    cases run
    exact before
  | cons a actions ih =>
    obtain ⟨z, first, rest⟩ := Option.bind_eq_some_iff.mp run
    obtain ⟨s, step, rfl⟩ := Option.map_eq_some_iff.mp first
    exact ih (before.next ⟨a, step, rfl⟩) rest

/-! ### The ticket of a call -/

/-- The ticket of a call that has consulted Onboard and is not decided. -/
structure Waits (review : DostReview) (eventId : Option Uuid) (verdict : Option GateCode)
    (start now : Time) (t : Option Ticket) : Prop where
  foreign : review.raterProfileId ≠ review.targetProfileId
  started : start ≤ now
  ticket : ∃ asked ≤ start, t = some (.waiting review eventId asked (some verdict))

/-- The pair has received fewer reviews from a time on than the limit. -/
def HasRoom (cfg : Config σ) (db : Db σ) (review : DostReview) (since : Time) : Prop :=
  db.reviews.count (countsFrom review.raterProfileId review.targetProfileId since) <
    cfg.rateLimitPerRaterPerTarget

/-- The call has passed the check of the rate limit, which still holds. -/
structure Admitted (cfg : Config σ) (db : Db σ) (review : DostReview) (eventId : Option Uuid)
    (start now : Time) (t : Option Ticket) : Prop extends Waits review eventId none start now t where
  room : ∃ since, start ≤ since + day ∧ since + day ≤ now ∧ HasRoom cfg db review since

/-- How the ticket of a call stands. A call that will fail the check of the rate limit is decided
with the duplicate check, which it has to come before that: whether it will is a guess, and where
the limit is not reached then, it will not. -/
def Gate.Ticketed (cfg : Config σ) (db : Db σ) (now : Time) (fails : Prop) (g : Gate)
    (t : Option Ticket) : Prop :=
  match g.phase with
  | .entry => ∃ asked ≤ now, t = some (.waiting g.review g.eventId asked none)
  | .beginning verdict => Waits g.review g.eventId verdict now now t
  | .locking verdict start => Waits g.review g.eventId verdict start now t
  | .checking verdict start => Waits g.review g.eventId verdict start now t
  | .timing start =>
    fails ∧ t = some (.decided (.rejected .rateLimited)) ∨
      Waits g.review g.eventId none start now t ∧
        (fails → ∀ since, now ≤ since + day → HasRoom cfg db g.review since)
  | .counting start since =>
    fails ∧ t = some (.decided (.rejected .rateLimited)) ∨
      Waits g.review g.eventId none start now t ∧ start ≤ since + day ∧ since + day ≤ now ∧
        (fails → HasRoom cfg db g.review since)
  | .inserting start => Admitted cfg db g.review g.eventId start now t
  | .committing start .passed _ => Admitted cfg db g.review g.eventId start now t
  | .persisting _ code => t = some (.decided (.rejected code))
  | .committing _ (.rejected code) _ => t = some (.decided (.rejected code))
  | .returned result => t = some (.answered result)
  | .gone => True

theorem Waits.later {review : DostReview} {eventId : Option Uuid} {verdict : Option GateCode}
    {start now now' : Time} {t : Option Ticket} (h : Waits review eventId verdict start now t)
    (later : now ≤ now') : Waits review eventId verdict start now' t :=
  ⟨h.foreign, h.started.trans later, h.ticket⟩

/-- Counting from later on counts no more. -/
theorem HasRoom.mono {review : DostReview} {since since' : Time} (h : HasRoom cfg db review since)
    (later : since ≤ since') : HasRoom cfg db review since' := by
  refine (Table.count_le fun id row found counts => ⟨row, found, ?_⟩).trans_lt h
  simp only [countsFrom, decide_eq_true_eq] at counts ⊢
  exact ⟨counts.1, counts.2.1, later.trans counts.2.2.1, counts.2.2.2⟩

theorem Admitted.later {review : DostReview} {eventId : Option Uuid} {start now now' : Time}
    {t : Option Ticket} (h : Admitted cfg db review eventId start now t) (later : now ≤ now')
    (fewer : ∀ since, HasRoom cfg db review since → HasRoom cfg db' review since) :
    Admitted cfg db' review eventId start now' t := by
  obtain ⟨since, after, before, room⟩ := h.room
  exact ⟨h.toWaits.later later, since, after, before.trans later, fewer since room⟩

/-- Time passes, and nothing is added to the pair of a call that holds the lock. -/
theorem Gate.Ticketed.later {g : Gate} {now now' : Time} {fails : Prop} {t : Option Ticket}
    (h : g.Ticketed cfg db now fails t) (later : now ≤ now')
    (fewer : g.lock cfg = some (g.pairLock cfg) →
      ∀ since, HasRoom cfg db g.review since → HasRoom cfg db' g.review since) :
    g.Ticketed cfg db' now' fails t := by
  obtain ⟨review, eventId, phase⟩ := g
  cases phase with
  | entry =>
    obtain ⟨asked, before, same⟩ := h
    exact ⟨asked, before.trans later, same⟩
  | beginning verdict =>
    obtain ⟨asked, before, same⟩ := h.ticket
    exact ⟨h.foreign, le_rfl, asked, before.trans later, same⟩
  | locking | checking => exact Waits.later h later
  | timing start =>
    rcases h with decided | ⟨waits, room⟩
    · exact .inl decided
    · exact .inr ⟨waits.later later, fun fails since after =>
        fewer rfl since (room fails since (later.trans after))⟩
  | counting start since =>
    rcases h with decided | ⟨waits, after, before, room⟩
    · exact .inl decided
    · exact .inr ⟨waits.later later, after, before.trans later, fun fails =>
        fewer rfl since (room fails)⟩
  | inserting start => exact Admitted.later h later (fewer rfl)
  | committing start result row =>
    cases result with
    | passed => exact Admitted.later h later (fewer rfl)
    | rejected => exact h
  | persisting | returned | gone => exact h

/-- What the count is going to say, where the call is at it. -/
def Gate.foresees (cfg : Config σ) (db : Db σ) (g : Gate) (fails : Prop) : Prop :=
  match g.phase with
  | .counting _ since => ¬HasRoom cfg db g.review since
  | _ => fails

/-! ### One step of a call -/

/-- The desk stands as the call does after its step. -/
structure Gate.Followed (cfg : Config σ) (db : Db σ) (now : Time) (fails : Prop) (g : Gate) (i : ℕ)
    (d d' : Desk) : Prop where
  time : d'.now = now
  accepted : d'.accepted = acceptedOf db
  ticket : g.Ticketed cfg db now fails (d'.tickets i)
  others : ∀ j, j ≠ i → d'.tickets j = d.tickets j

section

variable {v : View σ} {m : Move σ} {g : Gate} {phase : GatePhase} {fails : Prop} {d : Desk} {i : ℕ}

theorem Gate.Followed.stay (now : d.now = v.now) (accepted : d.accepted = acceptedOf db')
    (h : g.Ticketed cfg db' v.now fails (d.tickets i)) :
    g.Followed cfg db' v.now fails i d d := ⟨now, accepted, h, fun _ _ => rfl⟩

theorem Gate.Followed.turn {ticket : Ticket} (now : d.now = v.now)
    (accepted : d.accepted = acceptedOf db')
    (h : g.Ticketed cfg db' v.now fails (some ticket)) :
    g.Followed cfg db' v.now fails i d (d.turn i ticket) :=
  ⟨now, accepted, by simpa using h, fun _ other => Desk.turn_other other⟩

/-- The desk answers what has been decided. -/
theorem Gate.Followed.answer {result : GateResult} {d' : Desk} (now : d'.now = v.now)
    (accepted : d'.accepted = acceptedOf db') (others : ∀ j, j ≠ i → d'.tickets j = d.tickets j) :
    (g.enter (.returned result)).Followed cfg db' v.now fails i d (d'.turn i (.answered result)) :=
  ⟨now, accepted, Desk.turn_ticket, fun j other => (Desk.turn_other other).trans (others j other)⟩

variable {review : DostReview} {eventId : Option Uuid} {start since : Time}

/-- A call that waits can be decided at any time from now on, by the reviews accepted then. -/
theorem Waits.decide {verdict : Option GateCode} {limit : ℕ} {result : GateResult}
    (h : Waits review eventId verdict start d.now (d.tickets i)) (after : start ≤ since + day)
    (before : since + day ≤ d.now) (decision : d.decision limit review verdict since = result) :
    Desk.Step limit d [] (d.decide i review eventId start result) := by
  obtain ⟨asked, earlier, ticket⟩ := h.ticket
  have step : Desk.Step limit d [] _ := .decide i review eventId asked start since (some verdict)
    ticket (by simp) earlier after before
  rwa [show (some verdict).join = verdict from rfl, decision] at step

/-- It is decided against. -/
theorem Waits.reject {verdict : Option GateCode} {limit : ℕ} {code : GateCode}
    (h : Waits review eventId verdict start d.now (d.tickets i)) (after : start ≤ since + day)
    (before : since + day ≤ d.now)
    (decision : d.decision limit review verdict since = .rejected code) :
    Desk.Step limit d [] (d.turn i (.decided (.rejected code))) := by
  have step := h.decide after before decision
  rwa [Desk.decide_rejected] at step

/-- The row is committed that the check has admitted. -/
theorem Admitted.commit (h : Admitted cfg v.db review eventId start v.now (d.tickets i))
    (now : d.now = v.now) (accepted : d.accepted = acceptedOf v.db)
    (free : Replaceable v.db review.reviewId) :
    Desk.Step cfg.rateLimitPerRaterPerTarget d [] (d.decide i review eventId start .passed) := by
  obtain ⟨since, after, before, room⟩ := h.room
  have new : alreadySubmitted v.db review = false := by
    rw [← isSome_acceptedOf, acceptedOf_eq_none.mpr free]
    rfl
  have waits := h.toWaits
  rw [← now] at before waits
  refine waits.decide after before ?_
  rw [decision_limit accepted h.foreign new, if_neg (not_le.mpr room)]

/-- The commit decides the call, unless it has been decided against. -/
theorem Gate.Ticketed.commit {result : GateResult} {row : Option ReviewRow}
    (h : Gate.Ticketed cfg v.db v.now fails ⟨review, eventId, .committing start result row⟩
      (d.tickets i))
    (sound : Gate.Sound v.db ⟨review, eventId, .committing start result row⟩) (now : d.now = v.now)
    (accepted : d.accepted = acceptedOf v.db) :
    ∃ d', Traces.Path (Desk.Step cfg.rateLimitPerRaterPerTarget) d [] d' ∧ d'.now = v.now ∧
      d'.accepted = acceptedOf (v.db.after (row.map .putReview)) ∧
      d'.tickets i = some (.decided result) ∧ ∀ j, j ≠ i → d'.tickets j = d.tickets j := by
  cases result with
  | passed =>
    obtain ⟨free, rfl⟩ : Replaceable v.db review.reviewId ∧ row = some (gatedRow review eventId start) :=
      sound
    refine ⟨_, .single (Admitted.commit h now accepted free), now, ?_, Desk.turn_ticket,
      fun j other => Desk.turn_other other⟩
    rw [Option.map_some, acceptedOf_passed (by simp [gatedRow]), Desk.decide, if_pos rfl, accepted]
    rfl
  | rejected code =>
    refine ⟨d, .stay, now, accepted.trans (acceptedOf_after ?_ fun new put => ?_).symm, h,
      fun _ _ => rfl⟩
    · cases row with
      | none => exact .inl rfl
      | some row => exact .inr ⟨row, rfl⟩
    · obtain ⟨new, rfl, eq⟩ := Option.map_eq_some_iff.mp put
      cases eq
      obtain ⟨same, free, rejected, -⟩ := sound new rfl
      exact ⟨rejected, same ▸ free⟩

/-- The duplicate check passes: a call that is guessed to fail the count is decided if it fails it
now. -/
theorem Waits.timed (h : Waits review eventId none start v.now (d.tickets i)) (now : d.now = v.now)
    (accepted : d.accepted = acceptedOf v.db) (new : alreadySubmitted v.db review = false) :
    ∃ d', Traces.Path (Desk.Step cfg.rateLimitPerRaterPerTarget) d [] d' ∧
      Gate.Followed cfg v.db v.now fails ⟨review, eventId, .timing start⟩ i d d' := by
  by_cases room : HasRoom cfg v.db review (v.now - day)
  · refine ⟨d, .stay, .stay now accepted (.inr ⟨h, fun _ since after => ?_⟩)⟩
    exact room.mono (by simpa using after)
  · by_cases guessed : fails
    · have decision : d.decision cfg.rateLimitPerRaterPerTarget review none (v.now - day) =
          .rejected .rateLimited := by
        rw [decision_limit accepted h.foreign new]
        exact if_pos (not_lt.mp room)
      have waits : Waits review eventId none start d.now (d.tickets i) := now ▸ h
      exact ⟨_, .single (waits.reject (by simpa using h.started) (by simp [now]) decision),
        .turn now accepted (.inl ⟨guessed, rfl⟩)⟩
    · exact ⟨d, .stay, .stay now accepted (.inr ⟨h, fun fails => absurd fails guessed⟩)⟩

theorem alreadySubmitted_of_insertGated (none : insertGated v.db review eventId start = none) :
    alreadySubmitted v.db review = true := by
  unfold insertGated at none
  unfold alreadySubmitted
  split at none
  · cases none
  · split at none
    · cases none
    next row found accepted => simp [accepted]

/-- Every step of a call is one that the desk follows. -/
theorem Gate.Step.followed (step : g.Step cfg v m phase st) (clean : Clean v.db)
    (sound : g.Sound v.db) (now : d.now = v.now) (accepted : d.accepted = acceptedOf v.db)
    (h : g.Ticketed cfg v.db v.now (g.foresees cfg v.db fails) (d.tickets i)) :
    ∃ d', Traces.Path (Desk.Step cfg.rateLimitPerRaterPerTarget) d (Gate.shown i m phase) d' ∧
      (g.enter phase).Followed cfg (v.db.after st) v.now fails i d d' := by
  have puts := step.puts
  obtain ⟨review, eventId, before⟩ := g
  cases step with
  | crashed | raised => exact ⟨d, .stay, .stay now accepted trivial⟩
  | selfReview r here selfish free =>
    cases here
    obtain ⟨asked, earlier, ticket⟩ := h
    have selfish : review.raterProfileId = review.targetProfileId := selfish
    have decided : Desk.Step cfg.rateLimitPerRaterPerTarget d []
        (d.turn i (.decided (.rejected .selfReview))) := by
      have step : Desk.Step cfg.rateLimitPerRaterPerTarget d [] _ :=
        .decide i review eventId asked asked (d.now - day) none ticket (fun _ => selfish) le_rfl
          (by simpa [now] using earlier) (by simp)
      rwa [show d.decision cfg.rateLimitPerRaterPerTarget review none.join (d.now - day) =
        .rejected .selfReview by simp [Desk.decision, selfish], Desk.decide_rejected] at step
    have audit : acceptedOf (v.db.after ((persistRejected v.db review eventId .selfReview v.now).bind
        fun row => r.effect (.putReview row))) = acceptedOf v.db := by
      refine acceptedOf_after puts fun row put => ?_
      obtain ⟨new, written, effect⟩ := Option.bind_eq_some_iff.mp put
      cases Reply.eq_of_effect effect
      obtain ⟨same, absent, rejected, -⟩ := persistRejected_spec clean written
      exact ⟨rejected, same ▸ absent⟩
    have answered : Desk.Step cfg.rateLimitPerRaterPerTarget _ _ _ :=
      .answer i (.rejected .selfReview) (d.turn_ticket (i := i))
    exact ⟨_, (Traces.Path.single decided).next answered,
      .answer now (accepted.trans audit.symm) fun j other => Desk.turn_other other⟩
  | validated answer here foreign =>
    cases here
    obtain ⟨asked, earlier, ticket⟩ := h
    exact ⟨_, .single (.consult i review eventId asked answer ticket), .turn now accepted
      ⟨foreign, le_rfl, asked, earlier, rfl⟩⟩
  | begun verdict here =>
    cases here
    exact ⟨d, .stay, .stay now accepted h⟩
  | locked verdict start here free =>
    cases here
    exact ⟨d, .stay, .stay now accepted h⟩
  | checked verdict start here =>
    cases here
    have waits : Waits review eventId verdict start d.now (d.tickets i) := now ▸ h
    have after : start ≤ d.now - day + day := by simpa using waits.started
    have before : d.now - day + day ≤ d.now := by simp
    cases submitted : alreadySubmitted v.db review with
    | true =>
      have decision : d.decision cfg.rateLimitPerRaterPerTarget review verdict (d.now - day) =
          .rejected .duplicate := decision_duplicate accepted waits.foreign submitted
      have checked : Gate.checked v.db review verdict start =
          .committing start (.rejected .duplicate) none := by simp [Gate.checked, submitted]
      rw [checked]
      exact ⟨_, .single (waits.reject after before decision), .turn now accepted rfl⟩
    | false =>
      cases verdict with
      | some code =>
        have decision : d.decision cfg.rateLimitPerRaterPerTarget review (some code) (d.now - day) =
            .rejected code := decision_verdict accepted waits.foreign submitted
        have checked : Gate.checked v.db review (some code) start = .persisting start code := by
          simp [Gate.checked, submitted]
        rw [checked]
        exact ⟨_, .single (waits.reject after before decision), .turn now accepted rfl⟩
      | none =>
        have checked : Gate.checked v.db review none start = .timing start := by
          simp [Gate.checked, submitted]
        rw [checked]
        exact Waits.timed h now accepted submitted
  | timed start here =>
    cases here
    refine ⟨d, .stay, .stay now accepted ?_⟩
    rcases h with decided | ⟨waits, room⟩
    · exact .inl decided
    · exact .inr ⟨waits, by simpa using waits.started, by simp, fun fails => room fails _ (by simp)⟩
  | counted start since here =>
    cases here
    by_cases room : HasRoom cfg v.db review since
    · have counted : Gate.counted cfg v.db review start since = .inserting start :=
        if_neg (not_le.mpr room)
      rw [counted]
      refine ⟨d, .stay, .stay now accepted ?_⟩
      rcases h with ⟨fails, -⟩ | ⟨waits, after, before, -⟩
      · exact absurd room fails
      · exact ⟨waits, since, after, before, room⟩
    · have counted : Gate.counted cfg v.db review start since = .persisting start .rateLimited :=
        if_pos (not_lt.mp room)
      rw [counted]
      refine ⟨d, .stay, .stay now accepted ?_⟩
      rcases h with ⟨-, decided⟩ | ⟨-, -, -, passes⟩
      · exact decided
      · exact absurd (passes room) room
  | persisted start code here free =>
    cases here
    exact ⟨d, .stay, .stay now accepted h⟩
  | unpersisted start code r here =>
    cases here
    exact ⟨d, .stay, .stay now accepted h⟩
  | inserted start here free =>
    cases here
    cases written : insertGated v.db review eventId start with
    | some row =>
      have inserted : Gate.inserted v.db review eventId start =
          .committing start .passed (some row) := by simp [Gate.inserted, written]
      rw [inserted]
      exact ⟨d, .stay, .stay now accepted h⟩
    | none =>
      -- another call has accepted the review since the duplicate check
      have waits : Waits review eventId none start d.now (d.tickets i) :=
        now ▸ Admitted.toWaits h
      have decision : d.decision cfg.rateLimitPerRaterPerTarget review none (d.now - day) =
          .rejected .duplicate :=
        decision_duplicate accepted waits.foreign (alreadySubmitted_of_insertGated written)
      have inserted : Gate.inserted v.db review eventId start =
          .committing start (.rejected .duplicate) none := by simp [Gate.inserted, written]
      rw [inserted]
      exact ⟨_, .single (waits.reject (by simpa using waits.started) (by simp) decision),
        .turn now accepted rfl⟩
  | committed start result row here =>
    cases here
    obtain ⟨d', path, time, same, decided, others⟩ := h.commit sound now accepted
    exact ⟨_, path.next (.answer i result decided), .answer time same others⟩
  | lost start result row e here =>
    cases here
    obtain ⟨d', path, time, same, -, others⟩ := h.commit sound now accepted
    exact ⟨d', path, time, same, trivial, others⟩

end

/-! ### The whole service -/

theorem Touches.hasRoom {written : List Uuid} (touch : Touches db written st) {review : DostReview}
    {since : Time} (outside : ∀ row, st = some (.putReview row) →
      countsFrom review.raterProfileId review.targetProfileId since row = false)
    (room : HasRoom cfg db review since) : HasRoom cfg (db.after st) review since := by
  refine (touch.count_le (fun row rejected => ?_) (fun row row' same accepted accepted' => ?_)
    outside).trans_lt room
  · simp [countsFrom, rejected]
  · rw [ReviewRow.Accepted] at accepted accepted'
    rw [same] at accepted' ⊢
    simp [countsFrom, accepted, accepted']

/-- A call that holds its pair's lock keeps all others from adding to the pair. -/
theorem Gate.Step.spares {v : View σ} {m : Move σ} {g g' : Gate} {phase : GatePhase}
    (step : g.Step cfg v m phase st) (clean : Clean v.db) (sound : g.Sound v.db)
    (apart : ∀ key, g'.lock cfg = some key → g.lock cfg ≠ some key)
    (holds : g'.lock cfg = some (g'.pairLock cfg)) (since : Time) :
    ∀ row, st = some (.putReview row) →
      countsFrom g'.review.raterProfileId g'.review.targetProfileId since row = false := by
  intro row put
  refine Bool.eq_false_iff.mpr fun counts => ?_
  rcases step.put_cases clean sound put with rejected | ⟨start, admitting, rfl⟩
  · simp [countsFrom, rejected] at counts
  · obtain ⟨rater, target, -⟩ := of_decide_eq_true counts
    have same : g.pairLock cfg = g'.pairLock cfg := by
      simp only [Gate.pairLock]
      exact congrArg₂ cfg.pairLock rater target
    exact apart _ holds (same ▸ admitting.lock)

/-- The desk stands as the service does, if the calls at these places are going to fail the check of
the rate limit. -/
structure Mirrors (cfg : Config σ) (fails : ℕ → Prop) (s : State σ) (d : Desk) : Prop where
  time : d.now = s.now
  accepted : d.accepted = acceptedOf s.db
  tickets : ∀ (i : ℕ) (g : Gate), s.calls[i]? = some (.gate g) →
    g.Ticketed cfg s.db s.now (fails i) (d.tickets i)
  fresh : ∀ i, s.calls.length ≤ i → d.tickets i = none

theorem State.shown_gate {s : State σ} {i : ℕ} {m : Move σ} {g : Gate} {c : Call σ} (db' : Db σ)
    (here : s.calls[i]? = some c) :
    s.shown { s with db := db', calls := s.calls.set i (.gate g) } (.act i m) =
      Gate.shown i m g.phase := by
  have within := (List.getElem?_eq_some_iff.mp here).1
  simp [State.shown, within]

theorem State.shown_other {s : State σ} {i : ℕ} {m : Move σ} {c : Call σ} (c' : Call σ) (db' : Db σ)
    (here : s.calls[i]? = some c) (other : ∀ g, c' ≠ .gate g) :
    s.shown { s with db := db', calls := s.calls.set i c' } (.act i m) = [] := by
  have within := (List.getElem?_eq_some_iff.mp here).1
  cases c' with
  | gate g => exact absurd rfl (other g)
  | worker | starter => simp [State.shown, within]

theorem Mirrors.gate {s : State σ} {fails : ℕ → Prop} {d : Desk} {i : ℕ} {m : Move σ} {g : Gate}
    {phase : GatePhase}
    (h : Mirrors cfg (Function.update fails i (g.foresees cfg s.db (fails i))) s d)
    (sound : s.Sound) (locks : Pool.Exclusive (Call.lock cfg) s.calls)
    (here : s.calls[i]? = some (.gate g)) (step : g.Step cfg (s.view cfg i) m phase st) :
    ∃ d', Traces.Path (Desk.Step cfg.rateLimitPerRaterPerTarget) d (Gate.shown i m phase) d' ∧
      Mirrors cfg fails
        { s with db := s.db.after st, calls := s.calls.set i (.gate (g.enter phase)) } d' := by
  have ticket := h.tickets i g here
  rw [Function.update_self] at ticket
  obtain ⟨d', path, follows⟩ := step.followed (d := d) sound.clean (sound.calls _ _ here) h.time
    h.accepted ticket
  refine ⟨d', path, follows.time, follows.accepted, fun j g' there => ?_, fun j past => ?_⟩
  · rcases Pool.getElem?_set_cases there with ⟨rfl, same⟩ | ⟨other, old⟩
    · cases same
      exact follows.ticket
    · have ticket := h.tickets j g' old
      rw [Function.update_of_ne other] at ticket
      rw [follows.others j other]
      refine ticket.later le_rfl fun holds since room => ?_
      refine (sound.gate here step).hasRoom (step.spares sound.clean (sound.calls _ _ here)
        (fun key mine yours => other ?_) holds since) room
      exact locks j i _ _ key old here mine yours
  · simp only [List.length_set] at past
    have other : j ≠ i := by
      rintro rfl
      exact absurd (List.getElem?_eq_some_iff.mp here).1 past.not_gt
    rw [follows.others j other]
    exact h.fresh j past

/-- Where no gate takes a step, the desk sees the batches' work at most. -/
theorem Mirrors.beside {s : State σ} {fails : ℕ → Prop} {d : Desk} (h : Mirrors cfg fails s d)
    (i : ℕ) (c : Call σ) (other : ∀ g, c ≠ .gate g) {written : List Uuid}
    (touch : Touches s.db written st) (plain : ∀ row, st ≠ some (.putReview row)) :
    ∃ d', Desk.Step cfg.rateLimitPerRaterPerTarget d [] d' ∧
      Mirrors cfg fails { s with db := s.db.after st, calls := s.calls.set i c } d' := by
  have revised := touch.revised plain
  rw [← h.accepted] at revised
  refine ⟨_, .revise _ revised, h.time, rfl, fun j g there => ?_, fun j past => ?_⟩
  · rcases Pool.getElem?_set_cases there with ⟨-, same⟩ | ⟨-, old⟩
    · exact absurd same.symm (other g)
    · exact (h.tickets j g old).later le_rfl fun _ since room =>
        touch.hasRoom (fun row put => absurd put (plain row)) room
  · exact h.fresh j (by simpa using past)

/-- A request of the gate is asked at the desk. -/
theorem Mirrors.request {s : State σ} {fails : ℕ → Prop} {d : Desk} (h : Mirrors cfg fails s d)
    (r : Request) :
    ∃ d', Traces.Path (Desk.Step cfg.rateLimitPerRaterPerTarget) d
        (s.shown { s with calls := s.calls ++ [r.call] } (.request r)) d' ∧
      Mirrors cfg fails { s with calls := s.calls ++ [r.call] } d' := by
  cases r with
  | gateAndStore review eventId =>
    refine ⟨_, .single (.ask s.calls.length review eventId (h.fresh _ le_rfl)), h.time, h.accepted,
      fun i g there => ?_, fun i past => ?_⟩
    · rcases Pool.getElem?_append_cases there with ⟨rfl, same⟩ | old
      · cases same
        exact ⟨d.now, h.time.le, Desk.turn_ticket⟩
      · have within := (List.getElem?_eq_some_iff.mp old).1
        rw [Desk.turn_other within.ne]
        exact h.tickets i g old
    · have past : s.calls.length + 1 ≤ i := by simpa using past
      rw [Desk.turn_other (by omega)]
      exact h.fresh i (by omega)
  | startBatch | sweepStaleBatches | runBatchToCompletion =>
    refine ⟨d, .stay, h.time, h.accepted, fun i g there => ?_, fun i past => ?_⟩
    · rcases Pool.getElem?_append_cases there with ⟨-, same⟩ | old
      · cases same
      · exact h.tickets i g old
    · have past : s.calls.length + 1 ≤ i := by simpa [Request.call] using past
      exact h.fresh i (by omega)

/-- One step of the service. A step that counts settles the guess about its call. -/
theorem Mirrors.step {s s' : State σ} {a : Action σ}
    (reachable : State.Reachable cfg Runs.Anything s) (step : s.step cfg a = some s')
    (fails : ℕ → Prop) :
    ∃ before, ∀ d, Mirrors cfg before s d →
      ∃ d', Traces.Path (Desk.Step cfg.rateLimitPerRaterPerTarget) d (s.shown s' a) d' ∧
        Mirrors cfg fails s' d' := by
  have sound := State.sound reachable
  cases State.stepped step with
  | tick δ =>
    have later : s.now ≤ s.now + δ := by simp
    refine ⟨fails, fun d h => ⟨_, .single (.time (s.now + δ) (h.time.trans_le later)), rfl,
      h.accepted, fun i g there => ?_, h.fresh⟩⟩
    exact (h.tickets i g there).later later fun _ _ room => room
  | request r => exact ⟨fails, fun d h => h.request r⟩
  | gate i m g phase st here gs =>
    refine ⟨Function.update fails i (g.foresees cfg s.db (fails i)), fun d h => ?_⟩
    rw [State.shown_gate _ here]
    exact h.gate sound (State.locks_exclusive reachable) here gs
  | worker i m w phase st here ws =>
    refine ⟨fails, fun d h => ?_⟩
    rw [State.shown_other (.worker (w.enter phase)) _ here (by simp)]
    obtain ⟨d', revised, after⟩ := h.beside i (.worker (w.enter phase)) (by simp)
      (ws.touches (sound.calls _ _ here)) ws.plain
    exact ⟨d', .single revised, after⟩
  | starter i m b phase st here bs =>
    refine ⟨fails, fun d h => ?_⟩
    rw [State.shown_other (.starter (b.enter phase)) _ here (by simp)]
    obtain ⟨d', revised, after⟩ := h.beside i (.starter (b.enter phase)) (by simp) bs.touches
      bs.plain
    exact ⟨d', .single revised, after⟩

/-- Whatever the callers and Onboard see of the gate, in any interleaving of its calls with one
another and with the batches, with failures and crashes anywhere, they could have seen of the desk,
which decides every submission at one moment; and its reviews are the accepted rows. -/
theorem gate_linearizable {s : State σ} {log : List DeskEvent}
    (run : Traces.Shows State.Init (State.Shown cfg) log s) :
    ∃ d, Traces.Shows Desk.Init (Desk.Step cfg.rateLimitPerRaterPerTarget) log d ∧
      d.accepted = acceptedOf s.db := by
  have base : ∀ (fails : ℕ → Prop) (s : State σ), s.Init → ∃ d, Desk.Init d ∧ Mirrors cfg fails s d := by
    intro fails s init
    obtain ⟨empty, none⟩ := init
    refine ⟨⟨fun _ => .none, s.now, fun _ => .none⟩, ⟨rfl, rfl⟩, rfl, ?_, by simp [none], by simp⟩
    rw [empty]
    rfl
  obtain ⟨d, shows, mirrors⟩ := run.simulated base (fun fails s shown more s' before step => by
    obtain ⟨a, step, rfl⟩ := step
    exact Mirrors.step (State.reachable_of_shown before) step fails) fun _ => False
  exact ⟨d, shows, mirrors.accepted⟩

def oneADay : Config ℕ := { defaults with rateLimitPerRaterPerTarget := 1 }

/-- The rater 2 has had a review accepted and submits the review 8. After its duplicate check the
rater 3 submits a review under the same id, which is accepted, and only then the first is counted. -/
def overtaken : List (Action ℕ) :=
  .request (.gateAndStore (sampleReview 7 2) none) :: untilCheck 0 ++ checkAndCommit 0 ++
  [.request (.gateAndStore (sampleReview 8 2) none), .act 1 (.onboard .disabled),
    .act 1 (.reply .ok), .act 1 (.reply .ok), .act 1 (.reply .ok)] ++
  .request (.gateAndStore (sampleReview 8 3) none) :: untilCheck 2 ++ checkAndCommit 2 ++
  [.act 1 .clock, .act 1 (.reply .ok), .act 1 (.reply .ok), .act 1 (.reply .ok)]

/-- The later answer is of the earlier decision: at the desk a review already accepted would have
been a duplicate. -/
theorem gate_linearizable_overtaken : ∃ (s : State ℕ) (log : List DeskEvent),
    Runs.perform (State.showing oneADay) (.start, []) overtaken = some (s, log) ∧
    log = [.asked 0 (sampleReview 7 2) none, .consulted 0 .disabled, .answered 0 .passed,
      .asked 1 (sampleReview 8 2) none, .consulted 1 .disabled,
      .asked 2 (sampleReview 8 3) none, .consulted 2 .disabled, .answered 2 .passed,
      .answered 1 (.rejected .rateLimited)] ∧
    ∃ d, Traces.Shows Desk.Init (Desk.Step 1) log d ∧ d.accepted = acceptedOf s.db := by
  obtain ⟨⟨s, log⟩, run, shown⟩ : ∃ x,
      Runs.perform (State.showing oneADay) (.start, []) overtaken = some x ∧
        x.2 = [.asked 0 (sampleReview 7 2) none, .consulted 0 .disabled, .answered 0 .passed,
          .asked 1 (sampleReview 8 2) none, .consulted 1 .disabled,
          .asked 2 (sampleReview 8 3) none, .consulted 2 .disabled, .answered 2 .passed,
          .answered 1 (.rejected .rateLimited)] := ⟨_, rfl, rfl⟩
  have start : Traces.Shows State.Init (State.Shown oneADay) [] .start := ⟨_, ⟨rfl, rfl⟩, .stay⟩
  exact ⟨s, log, run, shown, gate_linearizable (State.shows_of_perform start run)⟩

end DostReview.Review
