import DostReview.Engine.WrittenSignals
import DostReview.Library.Mirroring
import DostReview.Risk.Raising

/-!
# The risk tables in JSONB

The service with the engine on JSONB columns, and the service with the engine on states. Every
interleaving of the one is an interleaving of the other: the same locks, the same answers, and
columns that hold the states.
-/
namespace DostReview.Risk

open Locking Engine Engine.Stored

/-! ### What the rows have in common -/

/-- The same value, or two objects with the same entries. -/
def Reordered (x y : Json) : Prop :=
  y = x ∨ ∃ d d' : JsonObject, d.Perm d' ∧ x = .obj d ∧ y = .obj d'

/-- The same row of `risk_review_queue`, but for the order of what its evidence lists. -/
structure QueuedAlike (row row' : QueueRow) : Prop where
  rest : { row' with evidence := row.evidence } = row
  evidence : Dict.Alike Reordered row.evidence row'.evidence

variable {F : PyOps} (W : Weights F)

/-- The same row of `profile_risk`, whose column holds the state. -/
structure HoldsProfile (row : ProfileRow (AccountState F.toFloatOps)) (row' : ProfileRow Json) :
    Prop where
  accountId : row'.accountId = row.accountId
  riskScore : row'.riskScore = row.riskScore
  riskTier : row'.riskTier = row.riskTier
  repeatedAcross : row'.repeatedAcross = row.repeatedAcross
  state : HoldsAccount W row.state row'.state

/-- What the tables hold at a location. -/
def HoldsCell : ∀ l, Cell ConversationState (AccountState F.toFloatOps) l → Cell Json Json l → Prop
  | .signalEvents _, rows, rows' => rows' = rows
  | .conversationRisk _, st, x => Option.Rel HoldsConversation st x
  | .profileRisk _, row, row' => Option.Rel (HoldsProfile W) row row'
  | .outcomeEvents _, rows, rows' => rows' = rows
  | .reviewQueue _, rows, rows' => List.Forall₂ QueuedAlike rows rows'

theorem HoldsCell.empty : ∀ l, HoldsCell W l (RiskDb.empty l) (RiskDb.empty l) := by
  rintro (_ | _ | _ | _ | _)
  · rfl
  · exact .none
  · exact .none
  · rfl
  · exact .nil

/-! ### The store calls -/

abbrev TypedIngest (F : PyOps) := Ingest ConversationState (AccountState F.toFloatOps)

section

variable {W} {next : TypedIngest F} {next' : Ingest Json Json}

theorem mirrors_insertSignalEvent (record : SignalRecord) {next : Bool → TypedIngest F}
    {next' : Bool → Ingest Json Json} (more : ∀ b, Prog.Mirrors (HoldsCell W) (next b) (next' b)) :
    Prog.Mirrors (HoldsCell W) (insertSignalEvent record next) (insertSignalEvent record next') := by
  refine .stmt (fun rows rows' same => ?_) fun rows rows' same => ?_
  · obtain rfl : rows' = rows := same
    split
    · exact .none
    · exact .some rfl
  · obtain rfl : rows' = rows := same
    exact more _

theorem mirrors_getConversationState (sessionId : String)
    {next : Option ConversationState → TypedIngest F} {next' : Option Json → Ingest Json Json}
    (more : ∀ st x, Option.Rel HoldsConversation st x →
      Prog.Mirrors (HoldsCell W) (next st) (next' x)) :
    Prog.Mirrors (HoldsCell W) (getConversationState sessionId next)
      (getConversationState sessionId next') :=
  .stmt (fun _ _ _ => .none) more

theorem mirrors_putConversationState (sessionId : String) {st : ConversationState} {x : Json}
    (held : HoldsConversation st x) (more : Prog.Mirrors (HoldsCell W) next next') :
    Prog.Mirrors (HoldsCell W) (putConversationState sessionId st next)
      (putConversationState sessionId x next') :=
  .stmt (fun _ _ _ => .some (Option.Rel.some held)) fun _ _ _ => more

theorem mirrors_getProfile (profileId : String)
    {next : Option (ProfileRow (AccountState F.toFloatOps)) → TypedIngest F}
    {next' : Option (ProfileRow Json) → Ingest Json Json}
    (more : ∀ row row', Option.Rel (HoldsProfile W) row row' →
      Prog.Mirrors (HoldsCell W) (next row) (next' row')) :
    Prog.Mirrors (HoldsCell W) (getProfile profileId next) (getProfile profileId next') :=
  .stmt (fun _ _ _ => .none) more

theorem HoldsProfile.upsert {row : ProfileRow (AccountState F.toFloatOps)} {row' : ProfileRow Json}
    (h : HoldsProfile W row row') {old old'} (before : Option.Rel (HoldsProfile W) old old') :
    HoldsProfile W (upsertProfile row old) (upsertProfile row' old') := by
  refine ⟨?_, h.riskScore, h.riskTier, h.repeatedAcross, h.state⟩
  cases before with
  | none => simp only [upsertProfile, h.accountId, Option.bind_none]
  | some held => simp only [upsertProfile, h.accountId, held.accountId, Option.bind_some]

theorem mirrors_putProfile (profileId : String)
    {row : ProfileRow (AccountState F.toFloatOps)} {row' : ProfileRow Json}
    (held : HoldsProfile W row row') (more : Prog.Mirrors (HoldsCell W) next next') :
    Prog.Mirrors (HoldsCell W) (putProfile profileId row next) (putProfile profileId row' next') :=
  .stmt (fun _ _ before => .some (Option.Rel.some (held.upsert before))) fun _ _ _ => more

theorem mirrors_insertOutcome (row : OutcomeRow) (more : Prog.Mirrors (HoldsCell W) next next') :
    Prog.Mirrors (HoldsCell W) (insertOutcome row next) (insertOutcome row next') :=
  .stmt (fun rows rows' same => by
    obtain rfl : rows' = rows := same
    exact .some rfl) fun _ _ _ => more

theorem hasOpen_alike {rows rows' : List QueueRow} (alike : List.Forall₂ QueuedAlike rows rows') :
    hasOpen rows' = hasOpen rows := by
  induction alike with
  | nil => rfl
  | cons first _ ih =>
    have status := congrArg QueueRow.status first.rest
    simp only [hasOpen, List.any_cons] at ih ⊢
    rw [ih, ← status]

theorem mirrors_enqueueReview {row row' : QueueRow} (alike : QueuedAlike row row')
    (more : Prog.Mirrors (HoldsCell W) next next') :
    Prog.Mirrors (HoldsCell W) (enqueueReview row next) (enqueueReview row' next') := by
  obtain ⟨profileId, sessionId, reason, riskScore, evidence, status⟩ := row
  obtain ⟨_, _, _, _, evidence', _⟩ := row'
  obtain ⟨⟨⟩, _⟩ := id alike
  refine .stmt (fun rows rows' same => ?_) fun _ _ _ => more
  rw [hasOpen_alike same]
  split
  · exact .none
  · exact .some (List.rel_append same (.cons alike .nil))

end

/-! ### The engine and the service -/

section

variable {W} {iso : IsoFormat} {jsonb : Jsonb} (keeps : jsonb.Keeps)

include keeps

theorem engine_conversation_held (sessionId : String) {st : Option ConversationState}
    {x : Option Json} (held : Option.Rel HoldsConversation st x) (events : List Event) :
    ∃ out, (engine F iso jsonb).processConversation sessionId x events = .ok out ∧
      out.derivedTags = (processConversation iso st events).derivedTags ∧
      HoldsConversation (processConversation iso st events).state out.state := by
  refine processConversation_held iso ?_ events
  cases held with
  | none => exact .none
  | some held => exact .some (held.echo keeps)

theorem engine_signals_held (clock : DateTime) (profileId : String)
    {st : Option (AccountState F.toFloatOps)} {x : Option Json}
    (held : Option.Rel (HoldsAccount W) st x) (signals outcomes : List SignalItem) :
    ∃ out out', (vendored F.toFloatOps iso).processSignals clock profileId st signals outcomes =
        .ok out ∧
      (engine F iso jsonb).processSignals clock profileId x signals outcomes = .ok out' ∧
      AnswersAlike W out out' := by
  have echoed : Option.Rel (HoldsAccount W) st (x.map jsonb.echo) := by
    cases held with
    | none => exact .none
    | some held => exact .some (held.echo keeps)
  obtain ⟨out, out', answers, answers', alike⟩ :=
    processSignals_held iso echoed clock signals outcomes
  exact ⟨out, out', by simp only [vendored, answers], answers', alike⟩

variable (hashtext : String → ℤ) (clock : DateTime)

omit keeps in
theorem profileRow_held {row : Option (ProfileRow (AccountState F.toFloatOps))}
    {row' : Option (ProfileRow Json)} (held : Option.Rel (HoldsProfile W) row row')
    {out : SignalsOutput (AccountState F.toFloatOps)} {out' : SignalsOutput Json}
    (alike : AnswersAlike W out out') :
    HoldsProfile W (profileRow row out) (profileRow row' out') := by
  refine ⟨?_, alike.riskScore, alike.riskTier, alike.repeatedAcross, alike.state⟩
  cases held with
  | none => rfl
  | some held => exact held.accountId

omit keeps in
theorem queueRow_alike {out : SignalsOutput (AccountState F.toFloatOps)} {out' : SignalsOutput Json}
    (alike : AnswersAlike W out out') (profileId : String) (sessionId reason : Option String)
    (evidence : JsonObject) :
    QueuedAlike (queueRow profileId sessionId reason evidence out)
      (queueRow profileId sessionId reason evidence out') := by
  refine ⟨by simp only [queueRow, alike.riskScore], ?_⟩
  have tags : Reordered (.obj (out.riskTags.map fun t => (t.1, .float (.fin t.2))))
      (.obj (out'.riskTags.map fun t => (t.1, .float (.fin t.2)))) :=
    .inr ⟨_, _, alike.riskTags.map _, rfl, rfl⟩
  have base : Dict.Alike Reordered
      [("riskTags", .obj (out.riskTags.map fun t => (t.1, .float (.fin t.2)))),
        ("repeatedAcross", .arr (out.repeatedAcross.map .str))]
      [("riskTags", .obj (out'.riskTags.map fun t => (t.1, .float (.fin t.2)))),
        ("repeatedAcross", .arr (out'.repeatedAcross.map .str))] :=
    .of_forall₂ (by simp) (.cons ⟨rfl, tags⟩ (.cons ⟨rfl, .inl (by rw [alike.repeatedAcross])⟩ .nil))
  -- what is written over these is the same
  simp only [queueRow, queueEvidence]
  generalize [("riskTags", Json.obj (out.riskTags.map _)), _] = d at base
  generalize [("riskTags", Json.obj (out'.riskTags.map _)), _] = d' at base
  induction evidence generalizing d d' with
  | nil => exact base
  | cons e evidence ih => exact ih _ _ (base.set e.1 (.inl rfl))

theorem mirrors_fold (profileId : String) (signals outcomes : List SignalItem)
    (sessionId reason : Option String) (evidence : JsonObject) :
    Prog.Mirrors (HoldsCell W)
      (fold (vendored F.toFloatOps iso) hashtext clock profileId signals outcomes sessionId reason
        evidence)
      (fold (engine F iso jsonb) hashtext clock profileId signals outcomes sessionId reason
        evidence) := by
  refine .lock (mirrors_getProfile profileId fun row row' held => ?_)
  have states : Option.Rel (HoldsAccount W) (row.map (·.state)) (row'.map (·.state)) := by
    cases held with
    | none => exact .none
    | some held => exact .some held.state
  obtain ⟨out, out', answers, answers', alike⟩ :=
    engine_signals_held keeps clock profileId states signals outcomes
  rw [answers, answers']
  simp only [foldedAnswer, alike.riskScore, alike.riskTier, alike.repeatedAcross]
  refine mirrors_putProfile profileId (profileRow_held held alike) ?_
  split
  · exact mirrors_enqueueReview (queueRow_alike alike _ _ _ _) (.ret _)
  · exact .ret _

omit keeps in
theorem mirrors_answerTier (profileId : String) :
    Prog.Mirrors (HoldsCell W) (answerTier profileId) (answerTier profileId) := by
  refine mirrors_getProfile profileId fun row row' held => ?_
  cases held with
  | none => exact .ret _
  | some held =>
    simp only [Option.map_some, held.riskTier]
    exact .ret _

/-- A call on JSONB columns does what it does on states. -/
theorem mirrors_program (call : RiskCall) :
    Prog.Mirrors (HoldsCell W) (call.program (vendored F.toFloatOps iso) hashtext clock)
      (call.program (engine F iso jsonb) hashtext clock) := by
  cases call with
  | record r =>
    simp only [RiskCall.program, ingestRecord]
    cases toConversationEvent r with
    | error e => exact .throw _
    | ok event =>
      refine .lock (mirrors_insertSignalEvent r fun inserted => ?_)
      cases inserted with
      | false => exact .ret _
      | true =>
        refine mirrors_getConversationState r.sessionId fun st x held => ?_
        obtain ⟨out, answers, derived, state⟩ :=
          engine_conversation_held keeps r.sessionId held [event]
        rw [answers]
        simp only [vendored, derived]
        refine mirrors_putConversationState r.sessionId state ?_
        split
        · exact mirrors_answerTier _
        · split
          · exact mirrors_answerTier _
          · exact mirrors_fold keeps hashtext clock _ _ _ _ _ _
  | outcome o => exact .lock (mirrors_insertOutcome _ (mirrors_fold keeps hashtext clock _ _ _ _ _ _))

end

/-! ### Every interleaving -/

/-- The service on JSONB columns and the service on states reach the same: the same answers in the
same order, the same locks held by the same calls, and columns that hold the states. -/
theorem jsonb_refines {T : Type} [DecidableEq T] (iso : IsoFormat) {jsonb : Jsonb}
    (keeps : jsonb.Keeps) (hashtext : String → ℤ) (call : T → RiskCall) (clock : T → DateTime) :
    (∀ c, Reachable (programs (vendored F.toFloatOps iso) hashtext call clock) RiskDb.empty c →
      ∃ c', Reachable (programs (engine F iso jsonb) hashtext call clock) RiskDb.empty c' ∧
        c.Mirrors (HoldsCell W) c') ∧
    ∀ c', Reachable (programs (engine F iso jsonb) hashtext call clock) RiskDb.empty c' →
      ∃ c, Reachable (programs (vendored F.toFloatOps iso) hashtext call clock) RiskDb.empty c ∧
        c.Mirrors (HoldsCell W) c' :=
  reachable_iff_mirrors (fun t => mirrors_program keeps hashtext (clock t) (call t))
    (HoldsCell.empty W)

/-- The rational numbers as weights. -/
def rationalWeights : Weights rationalPyOps where
  weight _ := True
  zero := trivial
  add _ _ _ _ := trivial
  mul _ _ _ _ := trivial
  finite _ _ := rfl
  written w _ := ⟨w, rfl, rfl, fun i whole => congrArg some whole.symm⟩
  sums (x a b : ℚ) := show x + a + b = x + b + a by ring

/-- Two reports of different kinds. -/
def reportTwo (second : Bool) : RiskCall :=
  .outcome { profileId := "p", tag := if second then "not_received" else "confirmed_fraud" }

/-- Both reports are folded, the second into what the column makes of the state after the first. -/
theorem jsonb_refines_two_reports :
    ∃ (c : RiskConf Bool ConversationState (AccountState rationalOps))
      (c' : RiskConf Bool Json Json), c.Mirrors (HoldsCell rationalWeights) c' ∧
      Reachable (programs (engine rationalPyOps epochDates orderedColumn) (fun _ => 0) reportTwo
        fun _ => ⟨0, 0⟩) RiskDb.empty c' ∧
      c'.log.map Prod.fst = [false, true] := by
  have runs : ∀ t (db : RiskDb ConversationState (AccountState rationalOps)), ∃ a db',
      (programs (vendored rationalOps epochDates) (fun _ => 0) reportTwo (fun _ => ⟨0, 0⟩) t).run db =
        .ok (a, db') := by
    intro t db
    obtain ⟨out, _, _, answered, -⟩ := processSignals_ok rationalOps epochDates ⟨0, 0⟩
      ((db (.profileRisk "p")).map (·.state)) [] [outcomeItem
        { profileId := "p", tag := if t then "not_received" else "confirmed_fraud" }]
    simp only [programs, reportTwo, RiskCall.program, ingestOutcome_run, vendored, answered]
    exact ⟨_, _, rfl⟩
  obtain ⟨a, db, ran⟩ := runs false RiskDb.empty
  obtain ⟨a', db', ran'⟩ := runs true db
  have first : Reachable (programs (vendored rationalOps epochDates) (fun _ => 0) reportTwo
      fun _ => ⟨0, 0⟩) RiskDb.empty _ :=
    Reachable.start.solo (t := false) (by rintro u held w rest ⟨⟩) rfl ran
  have second := first.solo (t := true)
    (Quiet.committed (by rintro u held w rest ⟨⟩) _ _ _ _) rfl ran'
  obtain ⟨c', reached, mirrors⟩ := (jsonb_refines rationalWeights epochDates keeps_orderedColumn
    (fun _ => 0) reportTwo fun _ => ⟨0, 0⟩).1 _ second
  exact ⟨_, c', mirrors, reached, by rw [mirrors.log]; rfl⟩

end DostReview.Risk
