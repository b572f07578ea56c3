import Mathlib.Data.Finset.Card
import Mathlib.Tactic.FinCases
import DostReview.Engine.Counting
import DostReview.Risk.OnFile

/-!
# Conversations and accounts agree

With the vendored engine, an account's count of a velocity tag is the number of sessions
in which its profile fired that tag: the fired set of a conversation and the dedupe record
of an account never let a tag through twice, and never lose one.
-/
namespace DostReview.Risk

open Locking Engine

variable {F : FloatOps} {iso : IsoFormat} (hashtext : String → ℤ)

abbrev EngineDb (F : FloatOps) := RiskDb ConversationState (AccountState F)

/-- The account state on file; the empty one when there is no row. -/
def accountOf (db : EngineDb F) (profileId : String) : AccountState F :=
  ((db (.profileRisk profileId)).map (·.state)).getD (AccountState.empty F)

/-- The fired set of the session holds `"t|p"`. -/
def FiredIn (db : EngineDb F) (t : FraudTag) (profileId sessionId : String) : Prop :=
  firedKey t.name profileId ∈ (before (db (.conversationRisk sessionId))).fired

/-- What ties the two tables together: counts, and why no count is made twice or lost. -/
structure Agrees (db : EngineDb F) : Prop where
  counted : ∀ p, ∀ t ∈ FraudTag.velocity, ∃ S : Finset String,
    (∀ s, s ∈ S ↔ FiredIn db t p s) ∧ (accountOf db p).count t = S.card
  seen : ∀ p conv, ∀ t ∈ FraudTag.velocity, (accountOf db p).Seen conv t → FiredIn db t p conv
  finite : ∀ p, (accountOf db p).Finite

theorem Agrees.empty : Agrees (RiskDb.empty : EngineDb F) where
  counted p t _ := ⟨∅, by simp [FiredIn, RiskDb.empty, ConversationState.empty], rfl⟩
  seen p conv t _ h := by
    obtain ⟨entry, member, _⟩ := h
    cases member
  finite p e he := by cases he

/-- What one committed call does to the two tables: in session `s₀` the profile `p` fires
the tags `names`, none of which it had fired there, and its account counts just these. -/
structure Fires (db db' : EngineDb F) (p s₀ : String) (names : List String) : Prop where
  fired : ∀ t q s, FiredIn db' t q s ↔ FiredIn db t q s ∨ s = s₀ ∧ q = p ∧ t.name ∈ names
  fresh : ∀ t : FraudTag, t.name ∈ names → ¬FiredIn db t p s₀
  others : ∀ q, q ≠ p → accountOf db' q = accountOf db q
  count : ∀ t ∈ FraudTag.velocity,
    (accountOf db' p).count t = (accountOf db p).count t + (if t.name ∈ names then 1 else 0)
  seen : ∀ conv, ∀ t ∈ FraudTag.velocity, (accountOf db' p).Seen conv t →
    (accountOf db p).Seen conv t ∨ conv = s₀ ∧ t.name ∈ names
  finite : (accountOf db' p).Finite

theorem Agrees.step {db db' : EngineDb F} (h : Agrees db) (p s₀ : String) (names : List String)
    (f : Fires db db' p s₀ names) : Agrees db' where
  counted q t ht := by
    obtain ⟨S, mem, count⟩ := h.counted q t ht
    by_cases mine : q = p
    · subst mine
      by_cases new : t.name ∈ names
      -- one more session fires the tag, and one more is counted
      · have notYet : s₀ ∉ S := fun old => f.fresh t new ((mem s₀).mp old)
        refine ⟨insert s₀ S, fun s => ?_, ?_⟩
        · rw [Finset.mem_insert, mem s, f.fired]
          simp [new, or_comm]
        · rw [f.count t ht, if_pos new, count, Finset.card_insert_of_notMem notYet]
      · refine ⟨S, fun s => ?_, ?_⟩
        · rw [mem s, f.fired]
          simp [new]
        · rw [f.count t ht, if_neg new, count, Nat.add_zero]
    · refine ⟨S, fun s => ?_, by rw [f.others q mine, count]⟩
      rw [mem s, f.fired]
      simp [mine]
  seen q conv t ht hs := by
    rw [f.fired]
    by_cases mine : q = p
    · subst mine
      rcases f.seen conv t ht hs with old | ⟨here, new⟩
      · exact .inl (h.seen q conv t ht old)
      · exact .inr ⟨here, rfl, new⟩
    · rw [f.others q mine] at hs
      exact .inl (h.seen q conv t ht hs)
  finite q := by
    by_cases mine : q = p
    · exact mine ▸ f.finite
    · rw [f.others q mine]
      exact h.finite q

theorem accountOf_foldedDb (db : EngineDb F) (p : String) (session reason : Option String)
    (evidence : JsonObject) (out : SignalsOutput (AccountState F)) (q : String) :
    accountOf (foldedDb db p session reason evidence out) q =
      if q = p then out.state else accountOf db q := by
  rw [accountOf, foldedDb_profileRisk]
  split <;> rfl

theorem velocity_not_outcome : ∀ t ∈ FraudTag.velocity, t ∉ FraudTag.outcome := by decide

theorem outcomeTags_named : ∀ s ∈ outcomeTags, ∃ t ∈ FraudTag.outcome, s = t.name := by decide

/-! ### A record -/

theorem senderSignals_event (r : SignalRecord) (names : List String) (ts : String) :
    ((senderSignals r (names.map (⟨·, r.srcProfileId, ts⟩))).map (·.tag) = names) ∧
    ∀ item ∈ senderSignals r (names.map (⟨·, r.srcProfileId, ts⟩)),
      item.conversationId = some r.sessionId := by
  constructor
  · simp [senderSignals, derivedToSignals, List.filter_map, Function.comp_def]
  · intro item hi
    obtain ⟨d, _, rfl⟩ := List.mem_map.mp hi
    rfl

/-- The conversation engine's pass over a record, and the tags it fires. -/
abbrev passOf (iso : IsoFormat) (db : EngineDb F) (r : SignalRecord) (stage : Option String) :
    ConversationOutput ConversationState :=
  processConversation iso (db (.conversationRisk r.sessionId)) [eventOf r stage]

abbrev tagsOf (iso : IsoFormat) (db : EngineDb F) (r : SignalRecord) (stage : Option String) :
    List String :=
  passTags iso (db (.conversationRisk r.sessionId)) (eventOf r stage)

theorem firedIn_storedDb (db : EngineDb F) (r : SignalRecord) (stage : Option String)
    (t : FraudTag) (p s : String) :
    FiredIn (storedDb db r (passOf iso db r stage)) t p s ↔
      FiredIn db t p s ∨ s = r.sessionId ∧ p = r.srcProfileId ∧ t.name ∈ tagsOf iso db r stage := by
  rw [FiredIn, storedDb_conversationRisk]
  by_cases here : s = r.sessionId
  · subst here
    rw [if_pos rfl]
    refine (processConversation_fired iso _ _ _).trans (or_congr_right ?_)
    constructor
    · rintro ⟨tag, member, same⟩
      have plain := derivedNames_plain tag (passTags_fresh _ _ _ member).1
      obtain ⟨rfl, rfl⟩ := firedKey_inj same t.name_plain plain
      exact ⟨rfl, rfl, member⟩
    · rintro ⟨-, rfl, member⟩
      exact ⟨t.name, member, rfl⟩
  · simp [here, FiredIn]

theorem Agrees.silent {db : EngineDb F} (h : Agrees db) {r : SignalRecord} {stage : Option String}
    (none : senderSignals r (passOf iso db r stage).derivedTags = []) :
    Agrees (storedDb db r (passOf iso db r stage)) := by
  have tags := (senderSignals_event r (tagsOf iso db r stage) (eventOf r stage).ts).1
  have nothing : tagsOf iso db r stage = [] := by
    rw [processConversation_derived] at none
    change senderSignals r _ = [] at none
    rw [← tags]
    simpa [tagsOf, eventOf] using none
  have account : ∀ p, accountOf (storedDb db r (passOf iso db r stage)) p = accountOf db p :=
    fun p => by simp [accountOf]
  refine h.step r.srcProfileId r.sessionId [] ?_
  refine ⟨fun t q s => ?_, by simp, fun q _ => account q, fun t _ => ?_, fun conv t _ hs => ?_, ?_⟩
  · simp [firedIn_storedDb, nothing]
  · simp [account]
  · exact .inl (account _ ▸ hs)
  · rw [account]
    exact h.finite _

theorem derivedNames_velocity : ∀ n ∈ derivedNames, ∃ t ∈ FraudTag.velocity, n = t.name := by decide

theorem Agrees.folded {db : EngineDb F} (h : Agrees db) {r : SignalRecord} {stage : Option String}
    {clock : DateTime} {out : SignalsOutput (AccountState F)} {session reason : Option String}
    {evidence : JsonObject}
    (answered : (vendored F iso).processSignals clock r.srcProfileId
      ((db (.profileRisk r.srcProfileId)).map (·.state))
      (senderSignals r (passOf iso db r stage).derivedTags) [] = .ok out) :
    Agrees (foldedDb (storedDb db r (passOf iso db r stage)) r.srcProfileId session reason evidence
      out) := by
  rw [processConversation_derived] at answered
  obtain ⟨tags, here⟩ := senderSignals_event r (tagsOf iso db r stage) (eventOf r stage).ts
  obtain ⟨now, last, folded, isFold, states, seen⟩ := vendored_signals iso answered
  rw [List.append_nil] at isFold
  have finite := decayed_finite (h.finite r.srcProfileId) now last
  have fresh : ∀ t : FraudTag, t.name ∈ tagsOf iso db r stage →
      ¬FiredIn db t r.srcProfileId r.sessionId := fun t ht => (passTags_fresh iso _ _ ht).2
  -- a tag not fired in the session is not in the account's record of it, so it is counted
  have unseen : ∀ t : FraudTag, t.name ∈ tagsOf iso db r stage →
      ¬(accountOf db r.srcProfileId).Seen r.sessionId t := by
    intro t ht old
    obtain ⟨u, hu, same⟩ := derivedNames_velocity _ (passTags_fresh iso _ _ ht).1
    rw [FraudTag.name_inj same] at old ht
    exact fresh u ht (h.seen _ _ u hu old)
  have mine := accountOf_foldedDb (storedDb db r (passOf iso db r stage)) r.srcProfileId session reason
    evidence out
  refine h.step r.srcProfileId r.sessionId (tagsOf iso db r stage) ?_
  refine ⟨fun t q s => ?_, fresh, fun q hq => ?_, fun t _ => ?_, fun conv t _ hs => ?_, ?_⟩
  · rw [← firedIn_storedDb, FiredIn, FiredIn, foldedDb_conversationRisk]
  · rw [mine, if_neg hq]
    simp [accountOf]
  · have counted := foldl_count iso now (decayed F now last (accountOf db r.srcProfileId)) here
      (by rw [tags]; exact passTags_nodup iso _ _) (fun t ht => unseen t (tags ▸ ht)) t
    rw [mine, if_pos rfl, AccountState.count, states, isFold]
    rw [tags, decayed_count (h.finite _)] at counted
    exact counted
  · rw [mine, if_pos rfl] at hs
    have inFold := seen conv t hs
    rw [isFold] at inFold
    rcases foldl_seen iso inFold with old | ⟨item, hi, same, named⟩
    · exact .inl old
    · rw [here item hi] at same
      exact .inr ⟨same, tags ▸ named ▸ List.mem_map_of_mem hi⟩
  · rw [mine, if_pos rfl, AccountState.Finite, states, isFold]
    exact foldl_finite iso _ finite

/-! ### An outcome -/

/-- An outcome counts no velocity tag, whatever conversation it names. -/
theorem Agrees.reported {db : EngineDb F} (h : Agrees db) {o : Outcome}
    (known : o.tag ∈ outcomeTags) {clock : DateTime} {out : SignalsOutput (AccountState F)}
    {session reason : Option String} {evidence : JsonObject}
    (answered : (vendored F iso).processSignals clock o.profileId
      ((db (.profileRisk o.profileId)).map (·.state)) [] [outcomeItem o] = .ok out) :
    Agrees (foldedDb (reportedDb db o) o.profileId session reason evidence out) := by
  obtain ⟨now, last, folded, isFold, states, seen⟩ := vendored_signals iso answered
  rw [List.nil_append] at isFold
  obtain ⟨u, hu, named⟩ := outcomeTags_named o.tag known
  -- an outcome's tag is never a velocity tag
  have other : ∀ t ∈ FraudTag.velocity, t ≠ u := by
    rintro t ht rfl
    exact velocity_not_outcome t ht hu
  have mine := accountOf_foldedDb (reportedDb db o) o.profileId session reason evidence out
  refine h.step o.profileId "" [] ?_
  refine ⟨fun t q s => ?_, by simp, fun q hq => ?_, fun t ht => ?_, fun conv t ht hs => ?_, ?_⟩
  · simp [FiredIn, reportedDb, Store.write]
  · rw [mine, if_neg hq]
    simp [accountOf, reportedDb, Store.write]
  · rw [mine, if_pos rfl, AccountState.count, states, isFold]
    refine (foldItem_count_other iso (FraudTag.ofName_eq.mpr named) (other t ht)).trans ?_
    exact decayed_count (h.finite o.profileId) now last t
  · rw [mine, if_pos rfl] at hs
    have inFold := seen conv t hs
    rw [isFold] at inFold
    rcases foldl_seen iso inFold with old | ⟨item, hi, _, same⟩
    · exact .inl old
    · rw [List.mem_singleton] at hi
      rw [hi, outcomeItem, named] at same
      exact absurd (FraudTag.name_inj same).symm (other t ht)
  · rw [mine, if_pos rfl, AccountState.Finite, states, isFold]
    exact foldl_finite iso _ (decayed_finite (h.finite _) now last)

/-! ### Every interleaving -/

variable {T : Type} [DecidableEq T] (call : T → RiskCall) (clock : T → DateTime)

theorem agrees {c : RiskConf T ConversationState (AccountState F)}
    (h : Reachable (programs (vendored F iso) hashtext call clock) RiskDb.empty c)
    (known : ∀ t o, call t = .outcome o → o.tag ∈ outcomeTags) : Agrees c.db := by
  refine h.keeps (fun t => program_covered (vendored F iso) hashtext (clock t) (call t)) ?_
    Agrees.empty
  intro t db a db' ran inv
  unfold programs at ran
  cases made : call t with
  | record r =>
    rw [made] at ran
    -- a repeat writes nothing, a record that fires nothing leaves the accounts alone
    cases ingestRecord_run (vendored F iso) hashtext (clock t) ran with
    | duplicate _ => exact inv
    | stored event out tier mapped _ conv none =>
      obtain ⟨stage, _, rfl⟩ := toConversationEvent_ok mapped
      obtain rfl := Except.ok.inj conv
      exact inv.silent none
    | folded event out sig mapped _ conv _ answered =>
      obtain ⟨stage, _, rfl⟩ := toConversationEvent_ok mapped
      obtain rfl := Except.ok.inj conv
      exact inv.folded answered
  | outcome o =>
    rw [made, RiskCall.program, ingestOutcome_run] at ran
    cases answered : (vendored F iso).processSignals (clock t) o.profileId
        ((db (.profileRisk o.profileId)).map (·.state)) [] [outcomeItem o] with
    | error e => simp [answered] at ran
    | ok out =>
      simp only [answered, Except.ok.injEq, Prod.mk.injEq] at ran
      obtain ⟨-, rfl⟩ := ran
      exact inv.reported (known t o made) answered

/-- In every state of every interleaving of ingests, an account's count of a velocity tag
is the number of sessions whose fired set holds it for the profile. -/
theorem counts_agree {c : RiskConf T ConversationState (AccountState F)}
    (h : Reachable (programs (vendored F iso) hashtext call clock) RiskDb.empty c)
    (known : ∀ t o, call t = .outcome o → o.tag ∈ outcomeTags)
    (tag : FraudTag) (velocity : tag ∈ FraudTag.velocity) (profileId : String) :
    ∃ S : Finset String, (∀ s, s ∈ S ↔ FiredIn c.db tag profileId s) ∧
      (accountOf c.db profileId).count tag = S.card :=
  (agrees hashtext call clock h known).counted profileId tag velocity

instance (db : EngineDb F) (t : FraudTag) (p s : String) : Decidable (FiredIn db t p s) :=
  inferInstanceAs (Decidable (_ ∈ _))

/-- A blocked message in each of two sessions, the first of them delivered once more, and a report
about its sender. -/
def blockedTwice : Fin 4 → RiskCall
  | 0 => .record blockedRecord
  | 1 => .record { blockedRecord with sessionId := "t" }
  | 2 => .record blockedRecord
  | 3 => .outcome { profileId := "p", tag := "not_received", sessionId := some "s" }

/-- The tag is fired in both sessions, and counted twice. -/
theorem counts_agree_blockedTwice :
    ∃ c : RiskConf (Fin 4) ConversationState (AccountState rationalOps),
      c.log.map Prod.fst = [0, 1, 2, 3] ∧
      FiredIn c.db .categoricalBlock "p" "s" ∧ FiredIn c.db .categoricalBlock "p" "t" ∧
      (accountOf c.db "p").count .categoricalBlock = 2 ∧
      ∃ S : Finset String, (∀ s, s ∈ S ↔ FiredIn c.db .categoricalBlock "p" s) ∧
        (accountOf c.db "p").count .categoricalBlock = S.card := by
  have done : (runAll (programs (vendored rationalOps epochDates) (fun _ => 0) blockedTwice
      fun _ => ⟨0, 0⟩) [0, 1, 2, 3] RiskDb.empty).map (fun db =>
        (decide (FiredIn db .categoricalBlock "p" "s"), decide (FiredIn db .categoricalBlock "p" "t"),
          (accountOf db "p").count .categoricalBlock)) = .ok (true, true, 2) := by decide +kernel
  cases ran : runAll (programs (vendored rationalOps epochDates) (fun _ => 0) blockedTwice
      fun _ => ⟨0, 0⟩) [0, 1, 2, 3] RiskDb.empty with
  | error e =>
    rw [ran] at done
    cases done
  | ok db =>
    rw [ran] at done
    simp only [Except.map, Except.ok.injEq, Prod.mk.injEq, decide_eq_true_eq] at done
    obtain ⟨c, reached, rfl, log⟩ := Reachable.start.inTurn (by rintro u held w rest ⟨⟩)
      (fun _ _ => rfl) (by decide) ran
    refine ⟨c, log, done.1, done.2.1, done.2.2, counts_agree (fun _ => 0) blockedTwice
      (fun _ => ⟨0, 0⟩) reached ?_ .categoricalBlock (by decide) "p"⟩
    intro t o outcome
    fin_cases t <;> cases outcome
    decide

end DostReview.Risk
