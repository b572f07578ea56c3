import Mathlib.Data.List.Induction
import DostReview.Engine.Ledger
import DostReview.Risk.Sender

/-!
# What the read route shows

`GET /api/v1/risk/profile/{id}` and the human review queue against the folds of a profile: each is
the engine's answer to what one call hands it, from the state that the fold before it has left. In
any interleaving the answers of the ingest routes tell of these folds in their order, the route
repeats the last one, and the queue holds the first one that reached `QUEUE_AT`.
-/
namespace DostReview.Risk

open Locking

/-! ### The column of the score -/

/-- What `NUMERIC(5,1)` makes of a number: one decimal, a half away from zero. A number that does
not fit is refused. -/
def numeric51 (x : ℚ) : Option ℚ :=
  let tenths : ℤ := if 0 ≤ x then ⌊x * 10 + 1 / 2⌋ else -⌊-x * 10 + 1 / 2⌋
  if |tenths| < 10 ^ 5 then some ((tenths : ℚ) / 10) else none

theorem floor_half (n : ℤ) : ⌊(n : ℚ) + 1 / 2⌋ = n := by
  rw [Int.floor_eq_iff]
  constructor <;> linarith

/-- Tenths that fit are kept as they are. -/
theorem numeric51_tenths {n : ℤ} (fits : |n| < 10 ^ 5) :
    numeric51 ((n : ℚ) / 10) = some ((n : ℚ) / 10) := by
  have tenths : (if (0 : ℚ) ≤ n / 10 then ⌊(n / 10 : ℚ) * 10 + 1 / 2⌋
      else -⌊-(n / 10 : ℚ) * 10 + 1 / 2⌋) = n := by
    split
    · rw [div_mul_cancel₀ _ (by norm_num), floor_half]
    · have whole : -(n / 10 : ℚ) * 10 + 1 / 2 = ((-n : ℤ) : ℚ) + 1 / 2 := by
        push_cast
        ring
      rw [whole, floor_half, neg_neg]
  simp only [numeric51, tenths, if_pos fits]

section

variable {C P : Type}

/-- Every score that the engine answers is one that its column keeps. -/
def KeptScores (engine : FraudEngine C P) : Prop :=
  ∀ clock p stored signals outcomes out,
    engine.processSignals clock p stored signals outcomes = .ok out →
      numeric51 out.riskScore = some out.riskScore

/-! ### What is shown -/

/-- A profile's risk as an answer tells it. -/
structure Shown where
  riskTier : RiskTier
  riskScore : ℚ
  repeatedAcross : List String
  deriving DecidableEq

/-- `read_tier`: a profile without a row is shown as harmless, and a score as its column has it. -/
def readTier (db : RiskDb C P) (profileId : String) : Option Shown :=
  match db (.profileRisk profileId) with
  | none => some ⟨.none, 0, []⟩
  | some row => (numeric51 row.riskScore).map fun score => ⟨row.riskTier, score, row.repeatedAcross⟩

/-- The queue of a profile, with the scores as their column has them. -/
def readQueue (db : RiskDb C P) (profileId : String) : Option (List QueueRow) :=
  (db (.reviewQueue profileId)).mapM fun row =>
    (numeric51 row.riskScore).map fun score => { row with riskScore := score }

def shownOf (out : SignalsOutput P) : Shown := ⟨out.riskTier, out.riskScore, out.repeatedAcross⟩

namespace RiskCall

/-- The profile into which a call folds. -/
def subject : RiskCall → String
  | .record r => r.srcProfileId
  | .outcome o => o.profileId

/-- The row that a call puts into the queue if its fold answers so. -/
def queued (out : SignalsOutput P) : RiskCall → QueueRow
  | .record r => queueRow r.srcProfileId (some r.sessionId) none [] out
  | .outcome o => queueRow o.profileId o.sessionId (some ("outcome:" ++ o.tag)) o.evidence out

theorem queued_score (out : SignalsOutput P) (call : RiskCall) :
    (call.queued out).riskScore = out.riskScore := by
  cases call <;> rfl

theorem queued_open (out : SignalsOutput P) (call : RiskCall) :
    (call.queued out).status = .opened := by
  cases call <;> rfl

/-- What a call hands the engine for its profile: the sender's tags that its record derives, or the
outcome that it reports. -/
inductive Hands (engine : FraudEngine C P) : RiskCall → List SignalItem → List SignalItem → Prop
  | record {r : SignalRecord} {event : Event} {state : Option C} {out : ConversationOutput C} :
      toConversationEvent r = .ok event →
      engine.processConversation r.sessionId state [event] = .ok out →
      senderSignals r out.derivedTags ≠ [] →
      Hands engine (.record r) (senderSignals r out.derivedTags) []
  | outcome (o : Outcome) : Hands engine (.outcome o) [] [outcomeItem o]

/-- The engine answers what a call hands it from a stored state. -/
def Answered (engine : FraudEngine C P) (clock : DateTime) (call : RiskCall) (stored : Option P)
    (out : SignalsOutput P) : Prop :=
  ∃ signals outcomes, call.Hands engine signals outcomes ∧
    engine.processSignals clock call.subject stored signals outcomes = .ok out

end RiskCall

/-! ### One call -/

/-- A fold leaves its answer, and enqueues it at the threshold if no row of the profile is open. -/
structure ShowsFold (db db' : RiskDb C P) (call : RiskCall) (out : SignalsOutput P) : Prop where
  row : ∀ p, db' (.profileRisk p) =
    if p = call.subject
    then some (upsertProfile (profileRow (db (.profileRisk p)) out) (db (.profileRisk p)))
    else db (.profileRisk p)
  queue : ∀ p, db' (.reviewQueue p) = db (.reviewQueue p) ++
    if p = call.subject ∧ queueAt ≤ out.riskScore ∧ hasOpen (db (.reviewQueue p)) = false
    then [call.queued out] else []

theorem foldedDb_shows {db mid : RiskDb C P} (call : RiskCall) {out : SignalsOutput P}
    {session reason : Option String} {evidence : JsonObject}
    (row : call.queued out = queueRow call.subject session reason evidence out)
    (profiles : ∀ p, mid (.profileRisk p) = db (.profileRisk p))
    (queues : ∀ p, mid (.reviewQueue p) = db (.reviewQueue p)) :
    ShowsFold db (foldedDb mid call.subject session reason evidence out) call out where
  row p := by
    rw [foldedDb_profileRisk]
    by_cases mine : p = call.subject
    · rw [if_pos mine, if_pos mine, profiles, ← mine]
    · rw [if_neg mine, if_neg mine, profiles]
  queue p := by
    by_cases mine : p = call.subject
    · subst mine
      rw [row, ← queues]
      unfold foldedDb
      split
      next high => simp [Store.write, high]
      next low => simp [Store.write, low]
    · rw [foldedDb_otherQueue _ _ _ _ _ _ mine, queues]
      simp [mine]

variable (engine : FraudEngine C P) (hashtext : String → ℤ)

/-- A successful call folds what the engine answers it, or leaves profiles and queues as they are. -/
theorem program_shows {clock : DateTime} {call : RiskCall} {db db' : RiskDb C P}
    {a : IngestResponse} (ran : (call.program engine hashtext clock).run db = .ok (a, db')) :
    (∃ out, a = foldedAnswer out ∧ ShowsFold db db' call out ∧
      call.Answered engine clock ((db (.profileRisk call.subject)).map (·.state)) out) ∨
      (∀ tier score repeated, a ≠ .folded tier score repeated) ∧
        ∀ p, db' (.profileRisk p) = db (.profileRisk p) ∧
          db' (.reviewQueue p) = db (.reviewQueue p) := by
  cases call with
  | record r =>
    cases ingestRecord_run engine hashtext clock ran with
    | duplicate _ => exact .inr ⟨by simp, fun p => ⟨rfl, rfl⟩⟩
    | stored event out tier =>
      exact .inr ⟨by simp, fun p =>
        ⟨storedDb_profileRisk db r out p, storedDb_reviewQueue db r out p⟩⟩
    | folded event out sig mapped unseen conv tags answered =>
      refine .inl ⟨sig, rfl, ?_, _, _, .record mapped conv tags, answered⟩
      exact foldedDb_shows (.record r) rfl (storedDb_profileRisk db r out)
        (storedDb_reviewQueue db r out)
  | outcome o =>
    simp only [RiskCall.program, ingestOutcome_run] at ran
    split at ran
    · cases ran
    next out answered =>
      simp only [Except.ok.injEq, Prod.mk.injEq] at ran
      obtain ⟨rfl, rfl⟩ := ran
      refine .inl ⟨out, rfl, ?_, _, _, .outcome o, answered⟩
      exact foldedDb_shows (.outcome o) rfl
        (fun p => by simp [reportedDb, Store.write]) fun p => by simp [reportedDb, Store.write]

end

/-! ### Every interleaving -/

variable {C P T : Type} (engine : FraudEngine C P) (hashtext : String → ℤ) (call : T → RiskCall)
  (clock : T → DateTime)

/-- The folds of a profile one after another, each with its call, and the state that they leave. -/
inductive Folds (p : String) : List (T × SignalsOutput P) → Option P → Prop
  | none : Folds p [] none
  | next {folds : List (T × SignalsOutput P)} {stored : Option P} {t : T} {out : SignalsOutput P} :
      Folds p folds stored → (call t).subject = p →
      (call t).Answered engine (clock t) stored out → Folds p (folds ++ [(t, out)]) (some out.state)

/-- What an answer says about a profile: only a fold says something. -/
def saysAbout (p : String) (e : T × IngestResponse) : Option (T × Shown) :=
  match e.2 with
  | .folded tier score repeated =>
    if p = (call e.1).subject then some (e.1, ⟨tier, score, repeated⟩) else none
  | _ => none

/-- The answers about a profile in commit order, each with its call. -/
def answersAbout (p : String) (log : List (T × IngestResponse)) : List (T × Shown) :=
  log.filterMap (saysAbout call p)

/-- The row of the first fold that reaches the threshold. -/
def firstQueued (folds : List (T × SignalsOutput P)) : List QueueRow :=
  ((folds.find? fun f => queueAt ≤ f.2.riskScore).map fun f => (call f.1).queued f.2).toList

/-- The answers about a profile and its rows, against its folds. -/
structure Traces (log : List (T × IngestResponse)) (db : RiskDb C P) (p : String)
    (folds : List (T × SignalsOutput P)) : Prop where
  chain : Folds engine call clock p folds ((db (.profileRisk p)).map (·.state))
  answers : answersAbout call p log = folds.map fun f => (f.1, shownOf f.2)
  row : (db (.profileRisk p)).map (fun row => (⟨row.riskTier, row.riskScore, row.repeatedAcross⟩ :
    Shown)) = folds.getLast?.map fun f => shownOf f.2
  queue : db (.reviewQueue p) = firstQueued call folds

/-- What is shown of a profile, against its folds: their answers are those that have been given,
the route repeats the last one, and the queue holds the first one at the threshold. -/
structure ShowsFolds (log : List (T × IngestResponse)) (db : RiskDb C P) (p : String)
    (folds : List (T × SignalsOutput P)) : Prop where
  chain : Folds engine call clock p folds ((db (.profileRisk p)).map (·.state))
  answers : answersAbout call p log = folds.map fun f => (f.1, shownOf f.2)
  read : readTier db p = some ((folds.getLast?.map fun f => shownOf f.2).getD ⟨.none, 0, []⟩)
  queue : readQueue db p = some (firstQueued call folds)

variable {engine call clock}

theorem Folds.kept (kept : KeptScores engine) {p : String} {folds : List (T × SignalsOutput P)}
    {stored : Option P} (h : Folds engine call clock p folds stored) :
    ∀ f ∈ folds, numeric51 f.2.riskScore = some f.2.riskScore := by
  induction h with
  | none => simp
  | next _ _ answered ih =>
    intro f member
    rcases List.mem_append.mp member with old | new
    · exact ih f old
    · obtain ⟨signals, outcomes, -, same⟩ := answered
      rw [List.mem_singleton.mp new]
      exact kept _ _ _ _ _ _ same

/-- The columns keep what the engine has answered. -/
theorem Traces.shows (kept : KeptScores engine) {log : List (T × IngestResponse)}
    {db : RiskDb C P} {p : String} {folds : List (T × SignalsOutput P)}
    (h : Traces engine call clock log db p folds) : ShowsFolds engine call clock log db p folds where
  chain := h.chain
  answers := h.answers
  read := by
    have row := h.row
    unfold readTier
    cases last : folds.getLast? with
    | none =>
      rw [last, Option.map_none, Option.map_eq_none_iff] at row
      rw [row]
      rfl
    | some f =>
      rw [last] at row
      obtain ⟨r, there, same⟩ := Option.map_eq_some_iff.mp row
      have score : r.riskScore = f.2.riskScore := congrArg Shown.riskScore same
      have column := h.chain.kept kept f (List.mem_of_getLast? last)
      simp only [there, score, column, Option.map_some, Option.getD_some, ← same]
  queue := by
    rw [readQueue, h.queue, firstQueued]
    cases first : folds.find? (fun f => queueAt ≤ f.2.riskScore) with
    | none => rfl
    | some f =>
      have column := h.chain.kept kept f (List.mem_of_find?_eq_some first)
      have row : ({ (call f.1).queued f.2 with riskScore := f.2.riskScore } : QueueRow) =
          (call f.1).queued f.2 := by rw [← RiskCall.queued_score f.2 (call f.1)]
      simp [RiskCall.queued_score, column, row]

theorem answersAbout_append (p : String) (log : List (T × IngestResponse))
    (e : T × IngestResponse) :
    answersAbout call p (log ++ [e]) = answersAbout call p log ++ (saysAbout call p e).toList := by
  rw [answersAbout, List.filterMap_append]
  cases said : saysAbout call p e with
  | none => simp [answersAbout, said]
  | some x => simp [answersAbout, said]

/-- A call that says nothing of the profile and leaves its rows as they are. -/
theorem Traces.unchanged {log : List (T × IngestResponse)} {db db' : RiskDb C P} {p : String}
    {folds : List (T × SignalsOutput P)} (h : Traces engine call clock log db p folds)
    {e : T × IngestResponse} (silent : saysAbout call p e = none)
    (row : db' (.profileRisk p) = db (.profileRisk p))
    (queue : db' (.reviewQueue p) = db (.reviewQueue p)) :
    Traces engine call clock (log ++ [e]) db' p folds where
  chain := row ▸ h.chain
  answers := by rw [answersAbout_append, silent, Option.toList_none, List.append_nil, h.answers]
  row := row ▸ h.row
  queue := queue ▸ h.queue

/-- A fold more. -/
theorem Traces.folded {log : List (T × IngestResponse)} {db db' : RiskDb C P} {t : T}
    {folds : List (T × SignalsOutput P)} {out : SignalsOutput P}
    (h : Traces engine call clock log db (call t).subject folds)
    (shows : ShowsFold db db' (call t) out)
    (answered : (call t).Answered engine (clock t)
      ((db (.profileRisk (call t).subject)).map (·.state)) out) :
    Traces engine call clock (log ++ [(t, foldedAnswer out)]) db' (call t).subject
      (folds ++ [(t, out)]) where
  chain := by
    rw [shows.row, if_pos rfl]
    exact .next h.chain rfl answered
  answers := by
    have said : saysAbout call (call t).subject (t, foldedAnswer out) = some (t, shownOf out) :=
      if_pos rfl
    rw [answersAbout_append, said, h.answers, List.map_append]
    rfl
  row := by
    rw [shows.row, if_pos rfl, List.getLast?_append_cons]
    rfl
  queue := by
    rw [shows.queue, h.queue, firstQueued, firstQueued, List.find?_append]
    cases first : folds.find? (fun f => queueAt ≤ f.2.riskScore) with
    | some f =>
      -- the row of the first fold is still open
      have opened : hasOpen [(call f.1).queued f.2] = true := by
        simp [hasOpen, RiskCall.queued_open]
      simp [opened]
    | none =>
      by_cases high : queueAt ≤ out.riskScore
      · simp [high, hasOpen]
      · simp [high]

/-- The vendored engine in exact arithmetic answers scores that the column keeps. -/
theorem keptScores_vendored (iso : IsoFormat) :
    KeptScores (Engine.vendored Engine.exactOps iso) := by
  intro clock p stored signals outcomes out answered
  obtain ⟨out', ok, score, -⟩ :=
    Engine.processSignals_answer Engine.exactOps iso clock stored signals outcomes
  simp only [Engine.vendored, ok, Except.ok.injEq] at answered
  subst answered
  obtain ⟨n, least, most, tenths⟩ := Engine.scoreOf_tenths
    (Engine.massOf Engine.exactOps
      (Engine.foldedOf iso clock stored (signals ++ outcomes)).fraudTagStates)
  rw [score, Engine.riskScore_exact, tenths]
  apply numeric51_tenths
  rw [abs_of_nonneg least]
  omega

end DostReview.Risk
