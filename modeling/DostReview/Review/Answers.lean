import DostReview.Review.Audit
import DostReview.Review.Storage

/-!
# Answers to validated reviews

With a database that refuses nothing but values that no column takes, a validated review is
answered without a 5xx and its rejections are on record, unless one of its INSERTs is refused:
then the accepting one is a 500, and the audit row is missing without a trace.
-/
namespace DostReview.Review

open Risk (Json JsonObject asString)

variable {σ : Type} {cfg : Config σ}

/-! ### What a healthy database answers -/

/-- The route's status code for a rejection. -/
def GateCode.statusCode : GateCode → ℕ
  | selfReview => 400
  | duplicate => 409
  | rateLimited => 429
  | targetNotFound => 422
  | targetInactive => 422
  | raterNotFound => 422
  | raterInactive => 422

/-- The status code of the route's answer; an exception out of the gate is a 500. -/
def Gate.statusCode (g : Gate) : Option ℕ :=
  match g.phase with
  | .returned .passed => some 201
  | .returned (.rejected code) => some code.statusCode
  | .gone => some 500
  | _ => none

/-- The statements of the gates all succeed but the INSERTs of values that the table does not
take, and no call of the gate dies. -/
def Healthy (repr : ℚ → String) (s : State σ) (a : Action σ) : Prop :=
  ∀ x ∈ s.gateStep a, x.2 ≠ .crash ∧
    ∀ r, x.2 = .reply r → (r = .ok ↔ ∀ row ∈ x.1.insertion s.now, TableTakes repr row)

/-- The rejection is on file, or the review was accepted before. -/
def OnRecord (db : Db σ) (r : Rejection) : Prop :=
  ∃ row, db.reviews.find? r.review.reviewId = some row ∧
    (row.Accepted ∨ row.gateReason = some r.code ∧ row.eventId = r.eventId)

/-- With a healthy database no call with the submission is answered with a 5xx, and where one is
answered with a rejection but that of a duplicate, the rejection is on record. -/
def Answered (cfg : Config σ) (repr : ℚ → String) (review : DostReview)
    (eventId : Option Uuid) : Prop :=
  ∀ s, State.Reachable cfg (Healthy repr) s → ∀ (i : ℕ) (g : Gate),
    s.calls[i]? = some (.gate g) → g.Carries review eventId →
      (∀ code ∈ g.statusCode, code < 500) ∧
      ∀ m s' code, Healthy repr s (.act i m) → s.step cfg (.act i m) = some s' →
        s'.calls[i]? = some (.gate (g.enter (.returned (.rejected code)))) → code ≠ .duplicate →
          OnRecord s'.db ⟨review, eventId, code⟩

theorem GateCode.statusCode_lt (code : GateCode) : code.statusCode < 500 := by
  cases code <;> decide

theorem onRecord_persistRejected (db : Db σ) (r : Rejection) (now : Time) :
    OnRecord (db.after ((persistRejected db r.review r.eventId r.code now).map .putReview)) r := by
  cases written : persistRejected db r.review r.eventId r.code now with
  | some row =>
    have same := (persistRejected_audits written).1
    refine ⟨row, by simp [Db.after, same], .inr ?_⟩
    unfold persistRejected at written
    split at written
    · cases written
      exact ⟨rfl, rfl⟩
    · split at written <;> cases written
      exact ⟨rfl, rfl⟩
  | none =>
    unfold persistRejected at written
    split at written
    · cases written
    next row found =>
      split at written
      · cases written
      next accepted => exact ⟨row, found, .inl accepted⟩

/-- A call whose statements all succeed comes to no exception. -/
theorem Gate.Step.not_gone {v : View σ} {m : Move σ} {st : Option (Stmt σ)} {g : Gate}
    {phase : GatePhase} (step : g.Step cfg v m phase st) (alive : m ≠ .crash)
    (answered : ∀ r, m = .reply r → r = .ok) : phase ≠ .gone := by
  cases step with
  | crashed => exact absurd rfl alive
  | raised r bad => exact absurd (answered r rfl) bad
  | lost _ _ _ e => cases answered _ rfl
  | checked verdict start =>
    rcases checked_cases v.db g.review verdict start with eq | ⟨_, eq⟩ | eq <;> rw [eq] <;> nofun
  | counted start since =>
    rcases counted_cases cfg v.db g.review start since with eq | ⟨-, eq⟩ <;> rw [eq] <;> nofun
  | inserted start =>
    rcases inserted_cases v.db g.review g.eventId start with ⟨_, -, eq⟩ | eq <;> rw [eq] <;> nofun
  | _ => nofun

/-- The statement that ends a call with a rejection puts it on record. -/
theorem Gate.Step.onRecord {v : View σ} {m : Move σ} {st : Option (Stmt σ)} {g : Gate}
    {phase : GatePhase} {code : GateCode} (step : g.Step cfg v m phase st)
    (ends : phase = .returned (.rejected code)) (named : code ≠ .duplicate)
    (audited : g.Audited v.db) (answered : ∀ r, m = .reply r → r = .ok) :
    OnRecord (v.db.after st) ⟨g.review, g.eventId, code⟩ := by
  cases step with
  | selfReview r here selfish free =>
    cases ends
    obtain rfl := answered r rfl
    have wrote := onRecord_persistRejected v.db ⟨g.review, g.eventId, .selfReview⟩ v.now
    cases written : persistRejected v.db g.review g.eventId .selfReview v.now <;>
      exact (written ▸ wrote :)
  | committed start result row here =>
    cases ends
    simp only [Gate.Audited, here, if_neg named] at audited
    exact audited ▸ onRecord_persistRejected v.db ⟨g.review, g.eventId, code⟩ start
  | checked verdict start =>
    rcases checked_cases v.db g.review verdict start with eq | ⟨_, eq⟩ | eq <;>
      cases eq.symm.trans ends
  | counted start since =>
    rcases counted_cases cfg v.db g.review start since with eq | ⟨-, eq⟩ <;>
      cases eq.symm.trans ends
  | inserted start =>
    rcases inserted_cases v.db g.review g.eventId start with ⟨_, -, eq⟩ | eq <;>
      cases eq.symm.trans ends
  | _ => cases ends

/-- The calls with the submission hold what a rejection is to write, and none has raised. -/
structure State.Serves (review : DostReview) (eventId : Option Uuid) (s : State σ) : Prop where
  sound : s.Sound
  gates : ∀ (i : ℕ) (g : Gate), s.calls[i]? = some (.gate g) → g.Carries review eventId →
    g.Audited s.db ∧ g.phase ≠ .gone

theorem State.gateStep_eq_some {s : State σ} {a : Action σ} {x : Gate × Move σ}
    (h : s.gateStep a = some x) : ∃ i, a = .act i x.2 ∧ s.calls[i]? = some (.gate x.1) := by
  cases a with
  | tick | request => cases h
  | act i m =>
    simp only [gateStep] at h
    split at h
    next g here =>
      cases h
      exact ⟨i, rfl, here⟩
    next => cases h

theorem Gate.persistReply_eq_some {g : Gate} {m : Move σ} {r : Reply}
    (h : g.persistReply m = some r) : m = .reply r := by
  cases m with
  | reply =>
    simp only [persistReply] at h
    split at h <;> cases h <;> rfl
  | _ => cases h

section

variable {repr : ℚ → String} {review : DostReview} {eventId : Option Uuid} {s s' : State σ}

/-- Where none of the INSERTs is refused, a healthy database answers the submission's calls. -/
theorem Healthy.answers {i : ℕ} {g : Gate} {m : Move σ} (healthy : Healthy repr s (.act i m))
    (here : s.calls[i]? = some (.gate g)) (taken : ∀ row ∈ g.insertion s.now, TableTakes repr row) :
    m ≠ .crash ∧ ∀ r, m = .reply r → r = .ok := by
  obtain ⟨alive, answers⟩ := healthy (g, m) (gateStep_gate here)
  exact ⟨alive, fun r reply => (answers r reply).mpr taken⟩

theorem State.Serves.step {a : Action σ} (h : s.Serves review eventId)
    (taken : ∀ (i : ℕ) (g : Gate), s.calls[i]? = some (.gate g) → g.Carries review eventId →
      ∀ row ∈ g.insertion s.now, TableTakes repr row)
    (step : s.step cfg a = some s') (healthy : Healthy repr s a) : s'.Serves review eventId := by
  have audited := h.sound.audited_step
    (P := fun review' eventId' => review' = review ∧ eventId' = eventId)
    (fun i g here mine => (h.gates i g here mine).1) step fun x moves mine r awaited => by
      obtain ⟨i, rfl, here⟩ := State.gateStep_eq_some moves
      exact (healthy.answers here (taken i x.1 here mine)).2 r (Gate.persistReply_eq_some awaited)
  refine ⟨h.sound.step step, fun j g there mine => ⟨audited j g there mine, ?_⟩⟩
  rcases (State.stepped step).gate_cases there with
    old | entry | ⟨m, g₀, phase, st, rfl, here, gs, rfl⟩
  · exact (h.gates j g old mine).2
  · simp [entry]
  · obtain ⟨alive, answered⟩ := healthy.answers here (taken j g₀ here mine)
    exact gs.not_gone alive answered

theorem NoneRefused.answered (h : NoneRefused cfg repr review eventId) :
    Answered cfg repr review eventId := by
  intro s reachable i g here mine
  have anyhow : ∀ {s : State σ}, State.Reachable cfg (Healthy repr) s →
      State.Reachable cfg Runs.Anything s := .mono fun _ _ _ => trivial
  have serves : s.Serves review eventId := by
    refine Runs.Reachable.invariant (P := State.Serves review eventId) (fun s init => ?_)
      (fun s a s' before serves step healthy => serves.step (h s (anyhow before)) step healthy)
      reachable
    have first : State.Reachable cfg Runs.Anything s := .start init
    exact ⟨State.sound first, by simp [init.2]⟩
  obtain ⟨audited, ended⟩ := serves.gates i g here mine
  refine ⟨fun code answer => ?_, fun m s' code healthy step ends named => ?_⟩
  · unfold Gate.statusCode at answer
    split at answer
    · cases answer
      decide
    · cases answer
      exact GateCode.statusCode_lt _
    next gone => exact absurd gone ended
    · cases answer
  · obtain ⟨_, _, st, there, moved, rfl⟩ := State.acted step
    cases here.symm.trans there
    obtain ⟨⟨_, st⟩, moved, eq⟩ := Option.map_eq_some_iff.mp moved
    cases eq
    obtain ⟨phase, rfl, gs⟩ := Gate.step_of_advance moved
    have answered := (healthy.answers here (h s (anyhow reachable) i g here mine)).2
    rcases Pool.getElem?_set_cases ends with ⟨-, same⟩ | ⟨other, -⟩
    · have returned : phase = .returned (.rejected code) :=
        (congrArg Gate.phase (Call.gate.inj same)).symm
      obtain ⟨rfl, rfl⟩ := mine
      exact gs.onRecord returned named audited answered
    · exact absurd rfl other

end

/-! ### A call that is alone -/

/-- The state before the step of a first call that has changed nothing yet. -/
def State.alone (g : Gate) : State σ := ⟨.empty, 0, [.gate g]⟩

section

variable {repr : ℚ → String} {review : DostReview} {eventId : Option Uuid}

theorem State.step_alone {g g' : Gate} {m : Move σ}
    (moved : g.advance cfg ⟨.empty, 0, [], []⟩ m = some (g', none)) :
    (State.alone g).step cfg (.act 0 m) = some (.alone g') := by
  simp [State.step, State.alone, State.view, Pool.others, Call.advance, moved, Db.after]

theorem healthy_alone {g : Gate} {m : Move σ} :
    Healthy repr (.alone g) (.act 0 m) ↔
      m ≠ .crash ∧ ∀ r, m = .reply r → (r = .ok ↔ ∀ row ∈ g.insertion 0, TableTakes repr row) := by
  simp [Healthy, State.gateStep, State.alone]

/-- A healthy database answers what is no INSERT. -/
theorem healthy_quiet {g : Gate} (quiet : g.insertion 0 = none) :
    Healthy repr (.alone g : State σ) (.act 0 (.reply .ok)) := by
  refine healthy_alone.mpr ⟨nofun, ?_⟩
  rintro _ ⟨⟩
  simp [quiet]

/-- A healthy database refuses the values that the table does not take. -/
theorem healthy_refuses {g : Gate} {row : ReviewRow} (inserts : g.insertion 0 = some row)
    (refused : ¬TableTakes repr row) (e : String) :
    Healthy repr (.alone g : State σ) (.act 0 (.reply (.failed e))) := by
  refine healthy_alone.mpr ⟨nofun, ?_⟩
  rintro _ ⟨⟩
  simp [inserts, refused]

theorem State.reachable_alone {g g' : Gate} {m : Move σ}
    (before : Reachable cfg (Healthy repr) (.alone g))
    (moved : g.advance cfg ⟨.empty, 0, [], []⟩ m = some (g', none))
    (healthy : Healthy repr (.alone g) (.act 0 m)) : Reachable cfg (Healthy repr) (.alone g') :=
  before.next (State.step_alone moved) healthy

variable (cfg repr) in
theorem State.reachable_entry (review : DostReview) (eventId : Option Uuid) :
    Reachable cfg (Healthy repr) (.alone ⟨review, eventId, .entry⟩) := by
  have first : Reachable cfg (Healthy repr) .start := .start ⟨rfl, rfl⟩
  exact first.next (a := .request (.gateAndStore review eventId)) rfl (by simp [Healthy, gateStep])

variable (cfg repr eventId) in
/-- A first call without Onboard, up to its INSERT: with no quota at all it is that of an audit
row. -/
theorem State.reachable_counted (foreign : review.raterProfileId ≠ review.targetProfileId) :
    Reachable cfg (Healthy repr)
      (.alone ⟨review, eventId, Gate.counted cfg .empty review 0 (0 - day)⟩) := by
  have beginning : Reachable cfg (Healthy repr) (.alone ⟨review, eventId, .beginning none⟩) :=
    State.reachable_alone (State.reachable_entry cfg repr review eventId) (m := .onboard .disabled)
      (if_neg foreign) (healthy_alone.mpr ⟨nofun, nofun⟩)
  have locking : Reachable cfg (Healthy repr) (.alone ⟨review, eventId, .locking none 0⟩) :=
    State.reachable_alone beginning rfl (healthy_quiet rfl)
  have checking : Reachable cfg (Healthy repr) (.alone ⟨review, eventId, .checking none 0⟩) :=
    State.reachable_alone locking rfl (healthy_quiet rfl)
  have timing : Reachable cfg (Healthy repr) (.alone ⟨review, eventId, .timing 0⟩) :=
    State.reachable_alone checking rfl (healthy_quiet rfl)
  have counting : Reachable cfg (Healthy repr) (.alone ⟨review, eventId, .counting 0 (0 - day)⟩) :=
    State.reachable_alone timing (m := .clock) rfl (healthy_alone.mpr ⟨nofun, nofun⟩)
  exact State.reachable_alone counting rfl (healthy_quiet rfl)

/-- Some first call comes to an INSERT that is refused: of the audit row of a self-review, or of
one without a quota, or the accepting one. -/
theorem refusal_reached {R : Readers} {now : Time} (validated : Validated R now review)
    (unstorable : ¬Storable cfg review) :
    ∃ phase row, State.Reachable cfg (Healthy R.repr) (.alone ⟨review, eventId, phase⟩) ∧
      (⟨review, eventId, phase⟩ : Gate).insertion 0 = some row ∧ ¬TableTakes R.repr row ∧
      (phase = .entry ∧ review.raterProfileId = review.targetProfileId ∨
        phase = .persisting 0 .rateLimited ∨ phase = .inserting 0) := by
  have rejection (code : GateCode) (h : noNul review.reviewText → Storable cfg review) :
      ¬TableTakes R.repr (rejectedRow review eventId code 0) :=
    fun taken => unstorable (h ((tableTakes_rejectedRow_iff validated eventId code 0).mp taken))
  by_cases selfish : review.raterProfileId = review.targetProfileId
  · exact ⟨.entry, _, State.reachable_entry cfg R.repr review eventId, if_pos selfish,
      rejection .selfReview fun text => ⟨text, .inl selfish⟩, .inl ⟨rfl, selfish⟩⟩
  have counted := State.reachable_counted cfg R.repr eventId selfish
  by_cases quota : cfg.rateLimitPerRaterPerTarget = 0
  · have rejected : Gate.counted cfg .empty review 0 (0 - day) = .persisting 0 .rateLimited :=
      if_pos (quota.le.trans (Nat.zero_le _))
    exact ⟨_, _, rejected ▸ counted, rfl,
      rejection .rateLimited fun text => ⟨text, .inr (.inl quota)⟩, .inr (.inl rfl)⟩
  · have accepted : Gate.counted cfg .empty review 0 (0 - day) = .inserting 0 :=
      if_neg (not_le.mpr (Nat.pos_of_ne_zero quota))
    refine ⟨_, _, accepted ▸ counted, rfl, fun taken => unstorable ?_, .inr (.inr rfl)⟩
    obtain ⟨text, media⟩ := (tableTakes_gatedRow_iff validated eventId 0).mp taken
    exact ⟨text, .inr (.inr media)⟩

theorem NoneRefused.storable {R : Readers} {now : Time} (h : NoneRefused cfg R.repr review eventId)
    (validated : Validated R now review) : Storable cfg review := by
  by_contra unstorable
  obtain ⟨phase, row, reachable, inserts, refused, -⟩ := refusal_reached validated unstorable
  have anyhow : State.Reachable cfg Runs.Anything (.alone ⟨review, eventId, phase⟩) :=
    reachable.mono fun _ _ _ => trivial
  exact refused (h _ anyhow 0 _ rfl ⟨rfl, rfl⟩ row inserts)

theorem Answered.storable {R : Readers} {now : Time} (h : Answered cfg R.repr review eventId)
    (validated : Validated R now review) : Storable cfg review := by
  by_contra unstorable
  obtain ⟨phase, row, reachable, inserts, refused, place⟩ := refusal_reached validated unstorable
  have healthy : Healthy R.repr (.alone ⟨review, eventId, phase⟩ : State σ)
      (.act 0 (.reply (.failed ""))) :=
    healthy_refuses inserts refused ""
  -- no row is there when a lone call is answered with a rejection
  have unrecorded {phase : GatePhase} {m : Move σ} {code : GateCode}
      (before : State.Reachable cfg (Healthy R.repr) (.alone ⟨review, eventId, phase⟩))
      (moved : (⟨review, eventId, phase⟩ : Gate).advance cfg ⟨.empty, 0, [], []⟩ m =
        some (⟨review, eventId, .returned (.rejected code)⟩, none))
      (healthy : Healthy R.repr (.alone ⟨review, eventId, phase⟩) (.act 0 m))
      (named : code ≠ .duplicate) : False := by
    obtain ⟨_, found, -⟩ :=
      (h _ before 0 _ rfl ⟨rfl, rfl⟩).2 m _ code healthy (State.step_alone moved) rfl named
    cases found
  rcases place with ⟨rfl, selfish⟩ | rfl | rfl
  · have answered : (⟨review, eventId, .entry⟩ : Gate).advance cfg ⟨.empty, 0, [], []⟩
        (.reply (.failed "")) =
          some (⟨review, eventId, .returned (.rejected .selfReview)⟩,
            (none : Option (Stmt σ))) := by
      simp [Gate.advance, Gate.enter, selfish, persistRejected, Reply.effect]
    exact unrecorded reachable answered healthy (by decide)
  · have aborted : State.Reachable cfg (Healthy R.repr)
        (.alone ⟨review, eventId, .committing 0 (.rejected .rateLimited) none⟩) :=
      State.reachable_alone reachable rfl healthy
    exact unrecorded aborted rfl (healthy_quiet rfl) (by decide)
  · have raised : State.Reachable cfg (Healthy R.repr) (.alone ⟨review, eventId, .gone⟩) :=
      State.reachable_alone reachable rfl healthy
    exact absurd ((h _ raised 0 _ rfl ⟨rfl, rfl⟩).1 500 rfl) (by decide)

end

/-! ### The result -/

/-- Of a submission that the validators let through no INSERT is refused just where its text is
free of U+0000 and its media list is never stored or can be; and just there a healthy database
answers it and leaves its rejections on record. -/
theorem validated_stored_iff (cfg : Config σ) (R : Readers) (now : Time) (body : Option Json)
    {review : DostReview} {eventId : Option Uuid}
    (accepted : readSubmission R now body = .ok (review, eventId)) :
    (NoneRefused cfg R.repr review eventId ↔ Storable cfg review) ∧
      (Answered cfg R.repr review eventId ↔ Storable cfg review) := by
  have validated : Validated R now review := yields_readSubmission body _ accepted
  refine ⟨⟨fun taken => taken.storable validated, fun h => h.noneRefused validated⟩,
    fun answered => answered.storable validated, fun h => ?_⟩
  have taken : NoneRefused cfg R.repr review eventId := h.noneRefused validated
  exact taken.answered

/-- What pydantic reads in the values of the sample bodies; no envelope is read. -/
def sampleReaders : Readers where
  uuid x :=
    match asString x with
    | some "00000000-0000-0000-0000-000000000001" => .ok 1
    | some "00000000-0000-0000-0000-000000000002" => .ok 2
    | some "00000000-0000-0000-0000-000000000007" => .ok 7
    | _ => .error "Input should be a valid UUID"
  datetime x :=
    match asString x with
    | some "1970-01-01T00:00:00Z" => .ok ⟨0, some 0, by decide, by decide⟩
    | _ => .error "Input should be a valid datetime"
  parseUuid _ := none
  decodeEvent _ := .error "Incorrect padding"
  loads _ := .error (.raised "")
  format _ := ""
  describe _ := ""
  notMapping _ := ""
  repr _ := "0.0"

/-- The review 7 of the profile 1 by the profile 2. -/
def sampleBody (text : String) (media : List Json) : Json :=
  .obj [("reviewId", .str "00000000-0000-0000-0000-000000000007"),
    ("targetProfileId", .str "00000000-0000-0000-0000-000000000001"),
    ("raterProfileId", .str "00000000-0000-0000-0000-000000000002"),
    ("reviewText", .str text), ("multimedia", .arr media),
    ("createdAt", .str "1970-01-01T00:00:00Z")]

/-- What is read in that body. -/
def sampleRead (text : String) (media : List JsonObject) : DostReview :=
  ⟨7, 1, 2, text, some media, 0⟩

theorem validated_stored_iff_photo :
    NoneRefused defaults sampleReaders.repr (sampleRead "Helpful" [[("kind", .str "photo")]]) none ∧
    Answered defaults sampleReaders.repr (sampleRead "Helpful" [[("kind", .str "photo")]]) none := by
  obtain ⟨taken, answered⟩ := validated_stored_iff defaults sampleReaders 0
    (some (sampleBody "Helpful" [.obj [("kind", .str "photo")]])) rfl
  have storable : Storable defaults (sampleRead "Helpful" [[("kind", .str "photo")]]) :=
    ⟨by decide, .inr (.inr fun _ given => by cases given; decide)⟩
  exact ⟨taken.mpr storable, answered.mpr storable⟩

/-- U+0000 is neither blank nor too long, and the INSERT with it is refused. -/
theorem validated_not_stored :
    readSubmission sampleReaders 0 (some (sampleBody (String.ofList [nul]) [])) =
        .ok (sampleRead (String.ofList [nul]) [], none) ∧
      ¬NoneRefused defaults sampleReaders.repr (sampleRead (String.ofList [nul]) []) none ∧
      ¬Answered defaults sampleReaders.repr (sampleRead (String.ofList [nul]) []) none := by
  have read : readSubmission sampleReaders 0 (some (sampleBody (String.ofList [nul]) [])) =
      .ok (sampleRead (String.ofList [nul]) [], none) := rfl
  have validated := yields_readSubmission _ _ read
  have unstorable : ¬Storable defaults (sampleRead (String.ofList [nul]) []) :=
    fun storable => absurd storable.1 (by decide)
  exact ⟨read, fun taken => unstorable (taken.storable validated),
    fun answered => unstorable (answered.storable validated)⟩

end DostReview.Review
