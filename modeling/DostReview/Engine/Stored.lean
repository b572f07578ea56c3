import DostReview.Engine.Coercions
import DostReview.Engine.Vendored

/-!
# The engine on stored JSON

`process_conversation` and `process_signals` on a state of any shape, as `json.loads` hands it
over: every check of a container, every coercion and every operation that can raise. On a state
of the engine's own making nothing raises.
-/
namespace DostReview.Engine.Stored

open Risk

variable (F : PyOps) (iso : IsoFormat)

/-- `_parse_iso` on any value. -/
def parseIso (x : Json) : Option DateTime := (asString x).bind (Risk.parseIso iso)

/-! ### `process_conversation` -/

/-- The local variables of `process_conversation`. -/
structure Thread where
  stages : Dict String JsonObject
  fired : List String
  claimants : List String
  askers : Dict DictKey Json
  turns : ℤ
  derived : List DerivedTag := []
  lastTs : Option String := none

/-- `{k: dict(v) for k, v in … if isinstance(v, dict)}` -/
def loadStages (prev : JsonObject) : Dict String JsonObject :=
  (asObject (field prev "stages")).filterMap fun
    | (k, .obj st) => some (k, st)
    | _ => none

/-- `{x for x in … if isinstance(x, str)}` -/
def loadStrings (x : Json) : List String := ((asList x).filterMap asString).dedup

def loadAskers (prev : JsonObject) (stages : Dict String JsonObject) :
    Except PyError (Dict DictKey Json) :=
  let stored := (asObject (field prev "moneyAskers")).map fun e => (.str e.1, e.2)
  if (Dict.get? prev "moneyAskers").isNone then
    match Dict.get? stages "money_ask" with
    | none => .ok stored
    | some st =>
      -- the state predates the map of askers: the sender of the first ask becomes a key of it
      if truthy (field st "by") ∧ truthy (field st "ts") then
        (hashed F (field st "by")).map fun by_ => [(by_, field st "ts")]
      else .ok stored
  else .ok stored

def loadThread (prev : JsonObject) : Except PyError Thread := do
  let stages := loadStages prev
  let askers ← loadAskers F prev stages
  let turns ← countOf F (field prev "turns")
  return { stages := stages
           fired := loadStrings (field prev "fired")
           claimants := loadStrings (field prev "identityClaimants")
           askers := askers
           turns := turns }

def stageTs (stages : Dict String JsonObject) (name : String) : Option DateTime :=
  (Dict.get? stages name).bind fun st => parseIso iso (field st "ts")

def fire (tag profileId ts : String) (t : Thread) : Thread :=
  if firedKey tag profileId ∈ t.fired then t
  else
    { t with
      fired := firedKey tag profileId :: t.fired
      derived := t.derived ++ [⟨tag, profileId, ts⟩] }

/-- `stages.setdefault(name, {…})` for every name in order. -/
def recordStages (stages : Dict String JsonObject) (names : List String) (stage : JsonObject) :
    Dict String JsonObject :=
  names.foldl (fun st name => Dict.setDefault st name stage) stages

/-- The thread with an event's turn, claim, milestones, signal stages and first ask. -/
def absorb (t : Thread) (ev : Event) : Thread :=
  let names := ev.signals.map Prod.fst
  let stage : JsonObject := [("ts", .str ev.ts), ("turn", .int (ev.turnIndex.getD (t.turns + 1))),
    ("by", .str ev.senderId)]
  { t with
    lastTs := some ev.ts
    turns := t.turns + 1
    stages := recordStages (recordStages t.stages (ev.milestones.filter (· ∈ convMilestones)) stage)
      (names.filter (· ∈ convSignalStages)) stage
    claimants := if "identity_claim" ∈ names then addMember t.claimants ev.senderId
      else t.claimants
    askers := if "money_ask" ∈ names then Dict.setDefault t.askers (.str ev.senderId) (.str ev.ts)
      else t.askers }

/-- The conditions of an event's tags, the stored stages and asks read as timestamps. -/
def conditions (t : Thread) (names : List String) (sender : String) (turn : ℤ) (now : DateTime) :
    Conditions :=
  let asks : Bool := "money_ask" ∈ names
  let met := (stageTs iso t.stages "meet_scheduled").isSome ||
    (stageTs iso t.stages "ledger_credit").isSome ||
    (stageTs iso t.stages "handover_confirmed").isSome
  { moneyAskNoMilestone := asks && !met
    identityThenMoney := asks && !met && decide (sender ∈ t.claimants)
    feeEscalation := asks &&
      escalates ((Dict.get? t.askers (.str sender)).bind (parseIso iso))
        (stageTs iso t.stages "ledger_credit") now
    jumpedDeposit := (decide ("payee_asked_to_act" ∈ names) || asks) &&
      jumps (stageTs iso t.stages "ledger_credit_small") now
    channelShiftEarly := decide ("channel_shift_request" ∈ names) && decide (turn ≤ 2)
    contactSharePreMilestone := decide ("contact_share" ∈ names) &&
      (stageTs iso t.stages "price_agreed").isNone
    categoricalBlock := "categorical_block" ∈ names }

def processEvent (t : Thread) (ev : Event) : Thread :=
  match Risk.parseIso iso ev.ts with
  | none => t
  | some now =>
    let t := absorb t ev
    let c := conditions iso t (ev.signals.map Prod.fst) ev.senderId (ev.turnIndex.getD t.turns) now
    c.tagged.foldl (fun t e => if e.1 then fire e.2 ev.senderId ev.ts t else t) t

def Thread.dump (t : Thread) (prev : JsonObject) : Json :=
  .obj [("stages", .obj (t.stages.map fun e => (e.1, .obj e.2))),
    ("fired", .arr ((sortedSet t.fired).map .str)),
    ("identityClaimants", .arr ((sortedSet t.claimants).map .str)),
    ("moneyAskers", .obj (t.askers.map fun e => (e.1.text, e.2))),
    ("turns", .int t.turns),
    ("lastUpdated", (t.lastTs.map Json.str).getD (field prev "lastUpdated"))]

/-- `data.get("state")` as both functions check it: absent and `null` are an empty state. -/
def stateOf (state : Option Json) : Except EngineFailure JsonObject :=
  match state with
  | none => .ok []
  | some .null => .ok []
  | some (.obj prev) => .ok prev
  | some _ => .error (.error "state must be an object")

def processConversation (state : Option Json) (events : List Event) :
    Except EngineFailure (ConversationOutput Json) := do
  let prev ← stateOf state
  let thread ← (loadThread F prev).mapError .raised
  let final := events.foldl (processEvent iso) thread
  return ⟨final.derived, final.dump prev⟩

/-! ### `process_signals` -/

/-- An entry of `fraudTagStates` past its check: what else was stored in it, `count` and `w`. -/
structure TagRow where
  rest : JsonObject
  count : ℤ
  w : F.Float

structure SeenRow where
  tags : List Json
  ts : Json

/-- The local variables of `process_signals`. -/
structure Account where
  tags : Dict String (TagRow F)
  recent : Dict String (List Json)
  convSeen : Dict String SeenRow
  conversations : ℤ
  moneyAskConversations : ℤ

/-- The weight and the count of a stored entry; `none` where they are not finite numbers. -/
def readTag (s : JsonObject) : Except PyError (Option (ℤ × F.Float)) :=
  let orZero (x zero : Json) : Json := if truthy x then x else zero
  orElse (do
    let w ← pyFloat F (orZero (field s "w") (.float (.fin 0)))
    let count ← pyInt F (orZero (field s "count") (.int 0))
    return some (count, w)) none

/-- An entry that is no object, or has no finite weight, is dropped. -/
def loadTag : Json → Except PyError (Option (TagRow F))
  | .obj s => do
    let numbers ← readTag F s
    return (numbers.filter fun e => F.isfinite e.2).map fun e => ⟨s, e.1, e.2⟩
  | _ => .ok none

def loadTags : Dict String Json → Except PyError (Dict String (TagRow F))
  | [] => .ok []
  | (tag, s) :: stored => do
    let row ← loadTag F s
    let rows ← loadTags stored
    return (row.map fun r => (tag, r)).toList ++ rows

/-- `{t: list(v) for t, v in … if isinstance(v, list)}` -/
def loadRecent (prev : JsonObject) : Dict String (List Json) :=
  (asObject (field prev "recent")).filterMap fun
    | (tag, .arr entries) => some (tag, entries)
    | _ => none

def loadSeen (prev : JsonObject) : Dict String SeenRow :=
  (asObject (field prev "convSeen")).filterMap fun
    | (conv, .obj v) => some (conv, ⟨asList (field v "tags"), field v "ts"⟩)
    | _ => none

def loadAccount (prev : JsonObject) : Except PyError (Account F) := do
  let tags ← loadTags F (asObject (field prev "fraudTagStates"))
  let denoms := asObject (field prev "denoms")
  let conversations ← countOf F (field denoms "conversations")
  let moneyAskConversations ← countOf F (field denoms "moneyAskConversations")
  return { tags := tags
           recent := loadRecent prev
           convSeen := loadSeen prev
           conversations := conversations
           moneyAskConversations := moneyAskConversations }

/-- `FRAUD_WEIGHTS.get(tag, 1.0)` -/
def weightOf (tag : String) : ℚ := ((FraudTag.ofName tag).map FraudTag.weight).getD 1

def outcomeNames : List String := FraudTag.outcome.map FraudTag.name

/-- `_fraud_recency_weight` -/
def recencyWeight (age : F.Float) (tag : String) : Except PyError F.Float :=
  if F.lt (F.lit 0) age then
    let half := F.lit (if tag ∈ outcomeNames then 540 else 7)
    if F.powOverflows (F.div age half) then .error overflowError else .ok (F.halfPow (F.div age half))
  else .ok (F.lit 1)

def ageTags (age : F.Float) : Dict String (TagRow F) → Except PyError (Dict String (TagRow F))
  | [] => .ok []
  | (tag, row) :: tags => do
    let factor ← recencyWeight F age tag
    let aged ← ageTags age tags
    return (tag, { row with w := F.mul row.w factor }) :: aged

/-- Step 1: the stored mass decayed forward to now. -/
def decayTags (now : DateTime) (last : Option DateTime) (tags : Dict String (TagRow F)) :
    Except PyError (Dict String (TagRow F)) :=
  match last with
  | none => .ok tags
  | some last => ageTags F (ageDays F.toFloatOps now last) tags

/-- `tag in seen` -/
def hasTag (seen : List Json) (tag : String) : Bool := seen.any fun x => asString x = some tag

/-- `recent.setdefault(tag, []).append({…})`, if the item names a counterparty. -/
def noteCounterparty (created : DateTime) (item : SignalItem) (recent : Dict String (List Json)) :
    Dict String (List Json) :=
  match item.counterpartyId with
  | none => recent
  | some cp =>
    if cp = "" then recent
    else
      let entry : Json := .obj [("cp", .str cp), ("ts", .str (iso.isoformat created))]
      Dict.set recent item.tag ((Dict.get? recent item.tag).getD [] ++ [entry])

/-- Step 2, one item: counted once per conversation and tag. -/
def foldItem (now : DateTime) (a : Account F) (item : SignalItem) : Except PyError (Account F) :=
  if (FraudTag.ofName item.tag).isNone then .ok a
  else
    let conv := item.conversationId.getD ""
    let created := createdOf iso now item
    let seen := ((Dict.get? a.convSeen conv).map (·.tags)).getD []
    let stamp : Json := .str (iso.isoformat now)
    if hasTag seen item.tag then
      .ok { a with convSeen := Dict.set a.convSeen conv ⟨seen, stamp⟩ }
    else do
      let weight ← recencyWeight F (ageDays F.toFloatOps now created) item.tag
      let row := (Dict.get? a.tags item.tag).getD ⟨[], 0, F.lit 0⟩
      return {
        tags := Dict.set a.tags item.tag { row with count := row.count + 1, w := F.add row.w weight }
        recent := noteCounterparty iso created item a.recent
        convSeen := Dict.set a.convSeen conv ⟨seen ++ [.str item.tag], stamp⟩
        conversations := if seen.isEmpty then a.conversations + 1 else a.conversations
        moneyAskConversations := if item.tag = "money_ask_no_milestone" then
          a.moneyAskConversations + 1 else a.moneyAskConversations }

/-- The counterparty and the timestamp of an entry of `recent`, if it names a counterparty. -/
def datedEntry (x : Json) : Option (String × Json) :=
  match x with
  | .obj o => ((asString (field o "cp")).filter (· ≠ "")).map fun cp => (cp, field o "ts")
  | _ => none

/-- Step 3: an entry of `recent` inside the window. -/
def inside (window : ℤ) (now : DateTime) (x : Json) : Option String :=
  ((datedEntry x).filter fun e => within iso window now (asString e.2)).map Prod.fst

def pruneRecent (now : DateTime) (recent : Dict String (List Json)) : Dict String (List Json) :=
  (Dict.mapValues (fun _ entries => entries.filter fun x => (inside iso 30 now x).isSome)
    recent).filter fun e => e.2.length ≠ 0

def repeatedTags (now : DateTime) (recent : Dict String (List Json)) : List String :=
  ((recent.filter fun e => 3 ≤ (e.2.filterMap (inside iso 7 now)).dedup.length).map
    Prod.fst).insertionSort (· ≤ ·)

def pruneSeen (now : DateTime) (seen : Dict String SeenRow) : Dict String SeenRow :=
  seen.filter fun e => within iso 180 now (asString e.2.ts)

def massOf (tags : Dict String (TagRow F)) : F.Float :=
  tags.foldl (fun acc e => F.add acc (F.mul (F.lit (weightOf e.1)) e.2.w)) (F.lit 0)

def riskScore (tags : Dict String (TagRow F)) (tenureDays : F.Float) : Except PyError ℚ :=
  let mass := massOf F tags
  if F.isfinite mass = false ∨ F.lt (F.lit 0) mass = false then .ok 0
  else
    let tenureFactor := cap F.toFloatOps (F.lit 1)
      (F.div (floor0 F.toFloatOps tenureDays) (F.lit 14))
    let outcomeMass := massOf F (tags.filter fun e => e.1 ∈ outcomeNames)
    let effective := F.add outcomeMass (F.mul (F.sub mass outcomeMass)
      (F.add (F.lit (1 / 2)) (F.mul (F.lit (1 / 2)) tenureFactor)))
    let exponent := F.div (F.sub (F.lit 0) effective) (F.lit 8)
    if F.expOverflows exponent then .error overflowError
    else
      let score := F.mul (F.lit 100) (F.sub (F.lit 1) (F.exp exponent))
      .ok (F.round 1 (floor0 F.toFloatOps (cap F.toFloatOps (F.lit 100) score)))

def riskTagsOf (tags : Dict String (TagRow F)) : List (String × ℚ) :=
  (tags.filter fun e => F.lt (F.lit (1 / 1000000)) e.2.w).map fun e => (e.1, F.round 4 e.2.w)

def TagRow.dump (row : TagRow F) : Json :=
  .obj (Dict.set (Dict.set row.rest "count" (.int row.count)) "w" (.float (F.value row.w)))

def SeenRow.dump (row : SeenRow) : Json := .obj [("tags", .arr row.tags), ("ts", row.ts)]

/-- The state of step 4, pruned to the windows. -/
def Account.dump (a : Account F) (now : DateTime) : Json :=
  .obj [("fraudTagStates", .obj (a.tags.map fun e => (e.1, e.2.dump F))),
    ("recent", .obj ((pruneRecent iso now a.recent).map fun e => (e.1, .arr e.2))),
    ("convSeen", .obj ((pruneSeen iso now a.convSeen).map fun e => (e.1, e.2.dump))),
    ("denoms", .obj [("conversations", .int a.conversations),
      ("moneyAskConversations", .int a.moneyAskConversations)]),
    ("lastUpdated", .str (iso.isoformat now))]

/-- The body of `process_signals` on a state that is an object. -/
def foldSignals (clock : DateTime) (prev : JsonObject) (items : List SignalItem) :
    Except PyError (SignalsOutput Json) := do
  let stored ← loadAccount F prev
  let last := parseIso iso (field prev "lastUpdated")
  let now := pinClock clock last
  let tags ← decayTags F now last stored.tags
  let folded ← items.foldlM (foldItem F iso now) { stored with tags := tags }
  let score ← riskScore F folded.tags (F.lit 14)
  let tier ← tierOf score
  return { riskScore := score
           riskTier := tier
           riskTags := riskTagsOf F folded.tags
           repeatedAcross := repeatedTags iso now folded.recent
           state := folded.dump F iso now }

def processSignals (clock : DateTime) (state : Option Json) (signals outcomes : List SignalItem) :
    Except EngineFailure (SignalsOutput Json) := do
  let prev ← stateOf state
  (foldSignals F iso clock prev (signals ++ outcomes)).mapError .raised

/-! ### The engine of the service -/

/-- What a JSONB column hands back of a value: an object with the same keys for an object. -/
structure Jsonb where
  echo : Json → Json
  objects : ∀ entries, ∃ entries', echo (.obj entries) = .obj entries' ∧
    ∀ key, (Dict.get? entries' key).isSome = (Dict.get? entries key).isSome

/-- `vendor/engine.py` as the risk service calls it, with states as they come from the tables. -/
def engine (jsonb : Jsonb) : FraudEngine Json Json where
  processConversation _ state events := processConversation F iso (state.map jsonb.echo) events
  processSignals clock _ state signals outcomes :=
    processSignals F iso clock (state.map jsonb.echo) signals outcomes

/-! ### Nothing raises on a state of the engine's own making -/

section

variable {F iso}

/-- No state yet, or one with the map of askers: in an older one the sender of the first ask may
have no hash. -/
def Readable (prev : JsonObject) : Prop :=
  prev = [] ∨ (Dict.get? prev "moneyAskers").isSome

theorem loadAskers_returns {prev : JsonObject} (readable : Readable prev) :
    (loadAskers F prev (loadStages prev)).Returns fun _ => True := by
  rcases readable with rfl | present
  · exact .ok trivial
  · have known : ¬(Dict.get? prev "moneyAskers").isNone := by
      simpa [Option.isSome_iff_ne_none] using present
    rw [loadAskers, if_neg known]
    exact .ok trivial

theorem loadThread_returns {prev : JsonObject} (readable : Readable prev) :
    (loadThread F prev).Returns fun _ => True :=
  (loadAskers_returns readable).bind fun _ _ => (countOf_returns _).bind fun _ _ => .ok trivial

/-- A state as `process_conversation` leaves it: the map of askers is in it. -/
def ThreadState (state : Json) : Prop :=
  ∃ entries, state = .obj entries ∧ (Dict.get? entries "moneyAskers").isSome

theorem processConversation_returns {state : Option Json} (stored : ∀ s ∈ state, ThreadState s)
    (events : List Event) :
    (processConversation F iso state events).Returns fun out => ThreadState out.state := by
  have object : (stateOf state).Returns Readable := by
    cases state with
    | none => exact .ok (.inl rfl)
    | some s =>
      obtain ⟨entries, rfl, present⟩ := stored s rfl
      exact .ok (.inr present)
  exact object.bind fun _ readable => ((loadThread_returns readable).mapError _).bind
    fun _ _ => .ok ⟨_, rfl, rfl⟩

theorem readTag_returns (s : JsonObject) : (readTag F s).Returns fun _ => True :=
  orElse_returns ((pyFloat_raises _).bind fun _ => (pyInt_raises _).bind fun _ => .ok _) none

theorem loadTags_returns (stored : Dict String Json) :
    (loadTags F stored).Returns fun _ => True := by
  induction stored with
  | nil => exact .ok trivial
  | cons e stored ih =>
    obtain ⟨tag, s⟩ := e
    have row : (loadTag F s).Returns fun _ => True := by
      unfold loadTag
      split
      · exact (readTag_returns _).bind fun _ _ => .ok trivial
      · exact .ok trivial
    exact row.bind fun _ _ => ih.bind fun _ _ => .ok trivial

theorem loadAccount_returns (prev : JsonObject) : (loadAccount F prev).Returns fun _ => True :=
  (loadTags_returns _).bind fun _ _ => (countOf_returns _).bind fun _ _ =>
    (countOf_returns _).bind fun _ _ => .ok trivial

/-- The half-life is positive, and so is the age where the power is taken: nothing overflows. -/
theorem recencyWeight_returns (age : F.Float) (tag : String) :
    (recencyWeight F age tag).Returns fun _ => True := by
  unfold recencyWeight
  split
  next aged =>
    have half : (0 : ℚ) < if tag ∈ outcomeNames then 540 else 7 := by split <;> norm_num
    simp only [F.pow_ok _ _ aged half]
    exact .ok trivial
  · exact .ok trivial

theorem decayTags_returns (now : DateTime) (last : Option DateTime)
    (tags : Dict String (TagRow F)) : (decayTags F now last tags).Returns fun _ => True := by
  unfold decayTags
  split
  · exact .ok trivial
  · induction tags with
    | nil => exact .ok trivial
    | cons e tags ih =>
      exact (recencyWeight_returns _ e.1).bind fun _ _ => ih.bind fun _ _ => .ok trivial

theorem foldItem_returns (now : DateTime) (a : Account F) (item : SignalItem) :
    (foldItem F iso now a item).Returns fun _ => True := by
  unfold foldItem
  split
  · exact .ok trivial
  · dsimp only
    split
    · exact .ok trivial
    · exact (recencyWeight_returns _ _).bind fun _ _ => .ok trivial

/-- With no tenure given the discount factor is one. -/
theorem undiscounted (x : F.Float) :
    F.mul x (F.add (F.lit (1 / 2)) (F.mul (F.lit (1 / 2)) (cap F.toFloatOps (F.lit 1)
      (F.div (floor0 F.toFloatOps (F.lit 14)) (F.lit 14))))) = x := by
  have floored : floor0 F.toFloatOps (F.lit 14) = F.lit 14 := by
    rw [floor0, if_pos F.tenure_pos]
  have capped : cap F.toFloatOps (F.lit 1) (F.lit 1) = F.lit 1 := by
    rw [cap, if_neg (by simp [F.lt_irrefl])]
  rw [floored, F.div_tenure, capped, F.mul_one, F.add_halves, F.mul_one]

/-- The effective mass is not negative where the mass is positive, and the exponential of what is
not positive does not overflow. -/
theorem riskScore_returns (tags : Dict String (TagRow F)) :
    (riskScore F tags (F.lit 14)).Returns fun score => score < 101 := by
  unfold riskScore
  dsimp only
  split
  · exact .ok (by norm_num)
  next positive =>
    simp only [not_or, Bool.not_eq_false] at positive
    have effective := F.add_neg _ (massOf F (tags.filter fun e => e.1 ∈ outcomeNames))
      (F.sub_pos _ (massOf F (tags.filter fun e => e.1 ∈ outcomeNames)) positive.2)
    rw [undiscounted, F.exp_ok _ (F.div_neg _ 8 effective (by norm_num))]
    exact .ok (F.round_clamped _)

theorem tierOf_returns {score : ℚ} (bound : score < 101) :
    (tierOf score).Returns fun _ => True := by
  unfold tierOf
  split_ifs
  all_goals exact .ok trivial

/-- A state as `process_signals` leaves it. -/
def AccountState (state : Json) : Prop := ∃ entries, state = .obj entries

theorem processSignals_returns (clock : DateTime) {state : Option Json}
    (stored : ∀ s ∈ state, AccountState s) (signals outcomes : List SignalItem) :
    (processSignals F iso clock state signals outcomes).Returns
      fun out => AccountState out.state := by
  have object : (stateOf state).Returns fun _ => True := by
    cases state with
    | none => exact .ok trivial
    | some s =>
      obtain ⟨entries, rfl⟩ := stored s rfl
      exact .ok trivial
  refine object.bind fun prev _ => Except.Returns.mapError ?_ _
  exact (loadAccount_returns prev).bind fun _ _ => (decayTags_returns _ _ _).bind fun _ _ =>
    (Except.Returns.foldlM (fun _ _ _ _ => foldItem_returns _ _ _) trivial).bind fun _ _ =>
    (riskScore_returns _).bind fun _ bound => (tierOf_returns bound).bind fun _ _ => .ok ⟨_, rfl⟩

variable {jsonb : Jsonb}

theorem ThreadState.echo {s : Json} (h : ThreadState s) : ThreadState (jsonb.echo s) := by
  obtain ⟨entries, rfl, present⟩ := h
  obtain ⟨entries', eq, keys⟩ := jsonb.objects entries
  exact ⟨entries', eq, keys _ ▸ present⟩

theorem AccountState.echo {s : Json} (h : AccountState s) : AccountState (jsonb.echo s) := by
  obtain ⟨entries, rfl⟩ := h
  obtain ⟨entries', eq, -⟩ := jsonb.objects entries
  exact ⟨entries', eq⟩

theorem engine_conversation (session : String) {state : Option Json}
    (own : ∀ s ∈ state, ThreadState s) (events : List Event) :
    ((engine F iso jsonb).processConversation session state events).Returns
      fun out => ThreadState out.state := by
  refine processConversation_returns (fun s here => ?_) events
  obtain ⟨s, stored, rfl⟩ := Option.map_eq_some_iff.mp here
  exact (own s stored).echo

theorem engine_signals (clock : DateTime) (profileId : String) {state : Option Json}
    (own : ∀ s ∈ state, AccountState s) (signals outcomes : List SignalItem) :
    ((engine F iso jsonb).processSignals clock profileId state signals outcomes).Returns
      fun out => AccountState out.state := by
  refine processSignals_returns clock (fun s here => ?_) signals outcomes
  obtain ⟨s, stored, rfl⟩ := Option.map_eq_some_iff.mp here
  exact (own s stored).echo

end

end DostReview.Engine.Stored
