import Mathlib.Data.List.Dedup
import DostReview.Engine.Jsonb
import DostReview.Engine.Resumed

/-!
# A conversation as it is stored

The state of a conversation as JSON, and `process_conversation` on whatever a JSONB column makes
of it: no check of a container rejects anything, and it goes on as from the state itself.
-/
namespace DostReview.Engine

open Risk Stored

/-! ### What is written -/

def Stage.dump (stage : Stage) : JsonObject :=
  [("ts", .str stage.ts), ("turn", .int stage.turn), ("by", .str stage.sender)]

/-- A string, or `null` for `None`. -/
def optional (s : Option String) : Json := (s.map .str).getD .null

def ConversationState.fields (st : ConversationState) : JsonObject :=
  [("stages", .obj (Dict.mapValues (fun _ stage => .obj stage.dump) st.stages)),
    ("fired", .arr (st.fired.map .str)),
    ("identityClaimants", .arr (st.identityClaimants.map .str)),
    ("moneyAskers", .obj (Dict.mapValues (fun _ ts => .str ts) st.moneyAskers)),
    ("turns", .int st.turns),
    ("lastUpdated", optional st.lastUpdated)]

theorem optional_same (s : Option String) : Same (optional s) (optional s) := by
  cases s with
  | none => exact .null
  | some s => exact .str s

theorem Stored.Same.optional_inv {s : Option String} {x : Json} (h : Same (optional s) x) :
    x = optional s := by
  cases s with
  | none => exact h.null_inv
  | some s => exact h.str_inv

/-- A column holds the state of a conversation. -/
structure HoldsConversation (st : ConversationState) (x : Json) : Prop where
  same : Same (.obj st.fields) x
  fired : st.fired.Nodup
  identityClaimants : st.identityClaimants.Nodup

/-! ### What is read -/

/-- The variables of the loop as they are read from JSON. -/
structure Follows (prev : JsonObject) (loop : Loop) (t : Thread) : Prop where
  stages : Dict.Alike (fun stage o => Same (.obj (Stage.dump stage)) (.obj o)) loop.state.stages
    t.stages
  fired : t.fired = loop.state.fired
  once : loop.state.fired.Nodup
  claimants : t.claimants = loop.state.identityClaimants
  once' : loop.state.identityClaimants.Nodup
  askers : ∃ askers : Dict String Json, t.askers = Dict.renamed DictKey.str askers ∧
    Dict.Alike (fun ts x => x = .str ts) loop.state.moneyAskers askers
  turns : t.turns = loop.state.turns
  derived : t.derived = loop.derived
  last : (t.lastTs.map Json.str).getD (field prev "lastUpdated") = optional loop.state.lastUpdated

section

variable {prev : JsonObject} {loop : Loop} {t : Thread} {iso : IsoFormat}

theorem Follows.stageTs (h : Follows prev loop t) (name : String) :
    Stored.stageTs iso t.stages name = Engine.stageTs iso loop.state.stages name := by
  unfold Stored.stageTs Engine.stageTs
  cases there : Dict.get? loop.state.stages name with
  | none =>
    rw [h.stages.missing there]
    rfl
  | some stage =>
    obtain ⟨o, there', same⟩ := h.stages.found there
    obtain ⟨_, ⟨⟩, alike⟩ := same.obj_inv
    have ts : field o "ts" = .str stage.ts := (field_same alike "ts").str_inv
    rw [there', Option.bind_some, Option.bind_some, ts]
    rfl

theorem Follows.asked (h : Follows prev loop t) (sender : String) :
    (Dict.get? t.askers (.str sender)).bind (Stored.parseIso iso) =
      (Dict.get? loop.state.moneyAskers sender).bind (Risk.parseIso iso) := by
  obtain ⟨askers, same, alike⟩ := h.askers
  rw [same, Dict.get?_renamed fun _ _ => DictKey.str.inj]
  cases there : Dict.get? loop.state.moneyAskers sender with
  | none => rw [alike.missing there, Option.bind_none, Option.bind_none]
  | some ts =>
    obtain ⟨x, there', rfl⟩ := alike.found there
    rw [there']
    rfl

theorem Follows.conditions (h : Follows prev loop t) (names : List String) (sender : String)
    (turn : ℤ) (now : DateTime) :
    Stored.conditions iso t names sender turn now =
      Engine.conditions iso loop.state names sender turn now := by
  simp only [Stored.conditions, Engine.conditions, met, h.stageTs, h.asked, h.claimants]

theorem addMember_nodup {xs : List String} (once : xs.Nodup) (x : String) :
    (addMember xs x).Nodup := by
  unfold addMember
  split
  next => exact once
  next new => exact List.nodup_cons.mpr ⟨new, once⟩

theorem Follows.recordStages {stages : Dict String Stage} {stages' : Dict String JsonObject}
    (h : Dict.Alike (fun stage o => Same (.obj (Stage.dump stage)) (.obj o)) stages stages')
    (names : List String) {stage : Stage} {o : JsonObject}
    (same : Same (.obj stage.dump) (.obj o)) :
    Dict.Alike (fun stage o => Same (.obj (Stage.dump stage)) (.obj o))
      (Engine.recordStages stages names stage) (Stored.recordStages stages' names o) := by
  induction names generalizing stages stages' with
  | nil => exact h
  | cons name names ih => exact ih (h.setDefault name same)

theorem Stage.dump_same (stage : Stage) : Same (.obj stage.dump) (.obj stage.dump) :=
  .of_fields (by simp [dump])
    (.cons ⟨rfl, .str _⟩ (.cons ⟨rfl, .int _⟩ (.cons ⟨rfl, .str _⟩ .nil)))

/-- What an event adds is read as what it adds. -/
theorem Follows.absorb (h : Follows prev loop t) (ev : Event) :
    Follows prev { loop with state := Engine.absorb loop.state ev } (Stored.absorb t ev) := by
  have stage : Same (.obj (Stage.dump ⟨ev.ts, turnOf ev (loop.state.turns + 1), ev.senderId⟩))
      (.obj [("ts", .str ev.ts), ("turn", .int (ev.turnIndex.getD (t.turns + 1))),
        ("by", .str ev.senderId)]) := by
    rw [h.turns]
    exact Stage.dump_same _
  refine ⟨recordStages (recordStages h.stages _ stage) _ stage, h.fired, h.once, ?_, ?_, ?_, ?_,
    h.derived, rfl⟩
  · simp only [Stored.absorb, Engine.absorb, h.claimants]
  · simp only [Engine.absorb]
    split
    · exact addMember_nodup h.once' _
    · exact h.once'
  · obtain ⟨askers, same, alike⟩ := h.askers
    simp only [Stored.absorb, Engine.absorb]
    split
    · refine ⟨Dict.setDefault askers ev.senderId (.str ev.ts), ?_, alike.setDefault _ rfl⟩
      rw [same, Dict.renamed_setDefault fun _ _ => DictKey.str.inj]
    · exact ⟨askers, same, alike⟩
  · simp only [Stored.absorb, Engine.absorb, h.turns, Nat.cast_add, Nat.cast_one]

theorem Follows.fire (h : Follows prev loop t) (condition : Bool) (tag sender ts : String) :
    Follows prev (fireIf condition tag sender ts loop)
      (if condition then Stored.fire tag sender ts t else t) := by
  cases condition with
  | false => simpa [fireIf] using h
  | true =>
    simp only [fireIf, Stored.fire, h.fired, if_true, Bool.true_eq_false, false_or]
    by_cases old : firedKey tag sender ∈ loop.state.fired
    · simpa only [if_pos old] using h
    · simp only [if_neg old]
      exact { h with
        fired := rfl
        once := List.nodup_cons.mpr ⟨old, h.once⟩
        derived := by rw [h.derived] }

theorem Follows.fires (h : Follows prev loop t) (tagged : List (Bool × String))
    (sender ts : String) :
    Follows prev (tagged.foldl (fun l e => fireIf e.1 e.2 sender ts l) loop)
      (tagged.foldl (fun t e => if e.1 then Stored.fire e.2 sender ts t else t) t) := by
  induction tagged generalizing loop t with
  | nil => exact h
  | cons e tagged ih => exact ih (h.fire e.1 e.2 sender ts)

theorem Follows.event (h : Follows prev loop t) (ev : Event) :
    Follows prev (Engine.processEvent iso loop ev) (Stored.processEvent iso t ev) := by
  unfold Engine.processEvent Stored.processEvent
  cases Risk.parseIso iso ev.ts with
  | none => exact h
  | some now =>
    have absorbed := h.absorb ev
    simp only [fireAll_eq, absorbed.conditions, absorbed.turns]
    exact absorbed.fires _ ev.senderId ev.ts

variable (iso) in
theorem Follows.events (h : Follows prev loop t) (events : List Event) :
    Follows prev (events.foldl (Engine.processEvent iso) loop)
      (events.foldl (Stored.processEvent iso) t) := by
  induction events generalizing loop t with
  | nil => exact h
  | cons ev events ih => exact ih (h.event ev)

/-- What the thread writes is the state, as it is stored. -/
theorem Follows.dump (h : Follows prev loop t) : HoldsConversation loop.state.stored (t.dump prev) := by
  have stages : Same (.obj (Dict.mapValues (fun _ stage => .obj stage.dump) loop.state.stages))
      (.obj (t.stages.map fun e => (e.1, .obj e.2))) :=
    .of_alike (h.stages.mapValues fun _ _ _ same => same)
  obtain ⟨askers, same, alike⟩ := h.askers
  have texts : (t.askers.map fun e => (e.1.text, e.2)) = Dict.mapValues (fun _ x => x) askers := by
    rw [same, Dict.renamed, List.map_map]
    rfl
  have asked : Same (.obj (Dict.mapValues (fun _ ts => .str ts) loop.state.moneyAskers))
      (.obj (t.askers.map fun e => (e.1.text, e.2))) := by
    rw [texts]
    exact .of_alike (alike.mapValues fun _ ts x eq => eq ▸ .str ts)
  have last : Same (optional loop.state.lastUpdated)
      ((t.lastTs.map Json.str).getD (field prev "lastUpdated")) := by
    rw [h.last]
    exact optional_same _
  refine ⟨?_, ?_, ?_⟩
  · refine .of_fields (by simp [ConversationState.fields]) (.cons ⟨rfl, stages⟩ ?_)
    rw [h.fired, h.claimants, h.turns]
    exact .cons ⟨rfl, .strings _⟩ (.cons ⟨rfl, .strings _⟩ (.cons ⟨rfl, asked⟩
      (.cons ⟨rfl, .int _⟩ (.cons ⟨rfl, last⟩ .nil))))
  · exact (List.perm_insertionSort _ _).nodup_iff.mpr h.once
  · exact (List.perm_insertionSort _ _).nodup_iff.mpr h.once'

end

/-! ### A whole call -/

section

variable {F : PyOps} {iso : IsoFormat} {st : ConversationState} {x : Json}

theorem loadStrings_of_nodup {strings : List String} (once : strings.Nodup) :
    loadStrings (.arr (strings.map .str)) = strings := by
  have read : (strings.map Json.str).filterMap asString = strings := by
    rw [List.filterMap_map]
    exact List.filterMap_some
  rw [loadStrings, asList, read, once.dedup]

theorem loadStages_held {prev : JsonObject} (same : Same (.obj st.fields) (.obj prev)) :
    Dict.Alike (fun stage o => Same (.obj (Stage.dump stage)) (.obj o)) st.stages
      (loadStages prev) := by
  obtain ⟨_, ⟨⟩, alike⟩ := same.obj_inv
  obtain ⟨stages, here, entries⟩ := (field_same alike "stages").obj_inv
  have objects : loadStages prev =
      stages.filterMap fun e => (asDict e.2).map (Prod.mk e.1) := by
    rw [loadStages, here, asObject]
    congr 1
    funext e
    obtain ⟨key, value⟩ := e
    cases value <;> rfl
  rw [objects]
  have values := entries.of_mapValues fun _ _ _ same => same
  exact values.filterMap fun stage value same => by
    obtain ⟨o, rfl, -⟩ := same.obj_inv
    exact ⟨o, rfl, same⟩

/-- A state is read back: nothing is dropped, and nothing raises. -/
theorem HoldsConversation.load (h : HoldsConversation st x) :
    ∃ prev t, x = .obj prev ∧ loadThread F prev = .ok t ∧ Follows prev ⟨st, []⟩ t := by
  obtain ⟨prev, rfl, alike⟩ := h.same.obj_inv
  have fired : field prev "fired" = .arr (st.fired.map .str) :=
    (field_same alike "fired").strings_inv
  have claimants : field prev "identityClaimants" = .arr (st.identityClaimants.map .str) :=
    (field_same alike "identityClaimants").strings_inv
  have turns : countOf F (field prev "turns") = .ok (st.turns : ℤ) :=
    countOf_of_rational ((field_same alike "turns").number_inv rfl)
  have last : field prev "lastUpdated" = optional st.lastUpdated :=
    (field_same alike "lastUpdated").optional_inv
  obtain ⟨x, present, same⟩ := alike.found
    (show Dict.get? st.fields "moneyAskers" = some _ from rfl)
  obtain ⟨askers, rfl, entries⟩ := same.obj_inv
  have asked : loadAskers F prev (loadStages prev) = .ok (Dict.renamed DictKey.str askers) := by
    rw [loadAskers, if_neg (by simp [present]), field, present]
    rfl
  refine ⟨prev, _, rfl, by rw [loadThread, asked, turns]; rfl, ?_⟩
  exact
    { stages := loadStages_held h.same
      fired := by simp only [fired, loadStrings_of_nodup h.fired]
      once := h.fired
      claimants := by simp only [claimants, loadStrings_of_nodup h.identityClaimants]
      once' := h.identityClaimants
      askers := ⟨askers, rfl, entries.of_mapValues fun _ _ _ same => same.str_inv⟩
      turns := rfl
      derived := rfl
      last := last }

theorem HoldsConversation.echo (h : HoldsConversation st x) {jsonb : Jsonb} (keeps : jsonb.Keeps) :
    HoldsConversation st (jsonb.echo x) :=
  { h with same := keeps _ _ h.same }

variable (iso) in
/-- `process_conversation` on what a column holds does what it does on the state. -/
theorem processConversation_held {prev : Option ConversationState} {x : Option Json}
    (held : Option.Rel HoldsConversation prev x) (events : List Event) :
    ∃ out, Stored.processConversation F iso x events = .ok out ∧
      out.derivedTags = (Engine.processConversation iso prev events).derivedTags ∧
      HoldsConversation (Engine.processConversation iso prev events).state out.state := by
  obtain ⟨entries, t, read, loaded, follows⟩ : ∃ entries t, stateOf x = .ok entries ∧
      loadThread F entries = .ok t ∧ Follows entries ⟨prev.getD .empty, []⟩ t := by
    cases held with
    | none =>
      exact ⟨[], _, rfl, rfl, .nil, rfl, List.nodup_nil, rfl, List.nodup_nil, ⟨[], rfl, .nil⟩,
        rfl, rfl, rfl⟩
    | some held =>
      obtain ⟨entries, t, rfl, loaded, follows⟩ := held.load (F := F)
      exact ⟨entries, t, rfl, loaded, follows⟩
  have final := follows.events iso events
  refine ⟨⟨_, _⟩, ?_, final.derived, final.dump⟩
  rw [Stored.processConversation, read]
  simp only [bind, Except.bind, loaded, Except.mapError]
  rfl

end

end DostReview.Engine
