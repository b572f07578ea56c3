import DostReview.Engine.Stored
import DostReview.Risk.OnFile

/-!
# What an ingest raises

The service over the engine on stored JSON. The states on file are of the engine's own making,
so neither engine call raises or rejects anything; the mapper raises on a deal stage that has no
hash, and on nothing else.
-/
namespace DostReview.Risk

open Locking Engine.Stored

variable {T : Type} {F : Engine.PyOps} {iso : IsoFormat} {jsonb : Jsonb}

/-! ### States on file -/

/-- The states on file are as the engine leaves them. -/
def OwnStates : ∀ l, Cell Json Json l → Prop
  | .conversationRisk _ => fun state => ∀ s ∈ state, ThreadState s
  | .profileRisk _ => fun row => ∀ r ∈ row, AccountState r.state
  | _ => fun _ => True

/-! ### The programs -/

/-- A deal stage is a value that can be looked up in a set: no list and no object. -/
def Hashable : Option Json → Prop
  | some (.arr _) => False
  | some (.obj _) => False
  | _ => True

/-- The mapper raises on a deal stage that is not hashable, and on nothing else. -/
theorem toConversationEvent_raises_iff {record : SignalRecord} :
    (∃ e, toConversationEvent record = .error e) ↔
      ¬Hashable (Dict.get? record.context "dealStage") := by
  unfold toConversationEvent
  rcases Dict.get? record.context "dealStage" with _ | _ | _ | _ | _ | _ | _ | _
  all_goals simp [milestoneOf, Hashable, Except.map]

def RiskCall.Hashable : RiskCall → Prop
  | .record r => Risk.Hashable (Dict.get? r.context "dealStage")
  | .outcome _ => True

theorem fold_raises {E : IngestError → Prop} (hashtext : String → ℤ) (clock : DateTime)
    (profileId : String) (signals outcomes : List SignalItem) (session reason : Option String)
    (evidence : JsonObject) :
    Raises OwnStates E (fold (engine F iso jsonb) hashtext clock profileId signals outcomes
      session reason evidence) := by
  refine .lock (.stmt (fun _ _ _ => nofun) fun prev own => ?_)
  have stored : ∀ s ∈ prev.map (·.state), AccountState s := by
    intro s here
    obtain ⟨row, found, rfl⟩ := Option.map_eq_some_iff.mp here
    exact own row found
  obtain ⟨out, answered, state⟩ := engine_signals clock profileId stored signals outcomes
  rw [answered]
  -- the row takes the state that the engine answers
  refine .stmt ?_ fun _ _ => ?_
  · rintro old - _ ⟨⟩ row ⟨⟩
    exact state
  · split
    · exact .stmt (fun _ _ _ _ => trivial) fun _ _ => .ret _
    · exact .ret _

theorem answerTier_raises {E : IngestError → Prop} (profileId : String) :
    Raises OwnStates E (answerTier profileId : Ingest Json Json) :=
  .stmt (fun _ _ _ => nofun) fun _ _ => .ret _

theorem program_raises (hashtext : String → ℤ) (clock : DateTime) (call : RiskCall) :
    Raises OwnStates (fun _ => ¬call.Hashable)
      (call.program (engine F iso jsonb) hashtext clock) := by
  cases call with
  | outcome o =>
    exact .lock (.stmt (fun _ _ _ _ => trivial) fun _ _ =>
      fold_raises hashtext clock _ _ _ _ _ _)
  | record r =>
    change Raises _ _ (ingestRecord (engine F iso jsonb) hashtext clock r)
    unfold ingestRecord
    split
    next e raised =>
      exact .throw (toConversationEvent_raises_iff.mp ⟨e, raised⟩)
    next event mapped =>
      refine .lock (.stmt (fun _ _ _ _ => trivial) fun rows _ => ?_)
      dsimp only
      split
      · exact .ret _
      · refine .stmt (fun _ _ _ => nofun) fun state own => ?_
        obtain ⟨out, answered, left⟩ := engine_conversation r.sessionId own [event]
        rw [answered]
        refine .stmt ?_ fun _ _ => ?_
        · rintro old - _ ⟨⟩ s ⟨⟩
          exact left
        · split
          · exact answerTier_raises _
          · split
            · exact answerTier_raises _
            · exact fold_raises hashtext clock _ _ _ _ _ _

/-! ### Every interleaving -/

theorem OwnStates.empty : ∀ l, OwnStates l ((RiskDb.empty : RiskDb Json Json) l) := by
  rintro (_ | _ | _ | _ | _)
  all_goals simp [OwnStates, RiskDb.empty]

/-- A call comes to an exception, its own or for an engine's error result, in some interleaving
exactly if it is a record whose deal stage is not hashable. -/
theorem never_raises_iff [DecidableEq T] (F : Engine.PyOps) (iso : IsoFormat) (jsonb : Jsonb)
    (hashtext : String → ℤ) (call : T → RiskCall) (clock : T → DateTime) (t : T) :
    (∀ c, Reachable (programs (engine F iso jsonb) hashtext call clock) RiskDb.empty c →
      ∀ held w e, c.txn t ≠ .live held w (.throw e)) ↔ (call t).Hashable := by
  constructor
  · intro returns
    by_contra unhashable
    cases record : call t with
    | outcome o => exact unhashable (by rw [record]; trivial)
    | record r =>
      rw [record] at unhashable
      obtain ⟨e, raised⟩ := toConversationEvent_raises_iff.mpr unhashable
      have started : Reachable (programs (engine F iso jsonb) hashtext call clock) RiskDb.empty _ :=
        .next .start (.start t rfl)
      refine returns _ started [] (fun _ => none) (.raised e) ?_
      simp [Conf.set, programs, record, RiskCall.program, ingestRecord, raised]
  · intro hashable c reached held w e failed
    exact reached.raises OwnStates.empty
      (fun t => program_raises hashtext (clock t) (call t)) failed hashable

/-- JSONB that hands back what it was given. -/
def plainJsonb : Jsonb := ⟨id, fun entries => ⟨entries, rfl, fun _ => rfl⟩⟩

/-- A record that is valid, and whose deal stage is a list. -/
def stagedRecord : SignalRecord := { plainRecord with context := [("dealStage", .arr [])] }

theorem unhashable_stage_raises :
    ¬∀ c, Reachable (programs (engine Engine.rationalPyOps epochDates plainJsonb) (fun _ => 0)
        (fun _ : Unit => .record stagedRecord) fun _ => ⟨0, 0⟩) RiskDb.empty c →
      ∀ held w e, c.txn () ≠ .live held w (.throw e) := by
  intro returns
  exact returns _ (.next .start (.start () rfl)) [] (fun _ => none) (.raised .typeError) rfl

end DostReview.Risk
