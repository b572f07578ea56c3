import DostReview.Engine.Alarm
import DostReview.Risk.Agreement
import DostReview.Risk.Shown

/-!
# A first report raises the alarm

With the vendored engine in exact arithmetic, a report of a profile that no earlier call has made
for the same tag in the same conversation answers at least what its tag scores alone, in every
interleaving and whatever the account holds. The weighty reports put the profile before a human.
-/
namespace DostReview.Risk

open Locking Engine

variable {T : Type} (call : T → RiskCall)

/-- No call so far has reported the profile for the tag in the conversation of the outcome. -/
def FirstReport (log : List (T × IngestResponse)) (o : Outcome) : Prop :=
  ∀ e ∈ log, ∀ o', call e.1 = .outcome o' → o'.profileId = o.profileId → o'.tag = o.tag →
    keyOf (outcomeItem o') ≠ keyOf (outcomeItem o)

/-- What the accounts hold against the log: no clearance, and of reported tags only those that a
call has reported. -/
structure Reported (log : List (T × IngestResponse)) (db : EngineDb exactOps) : Prop where
  uncleared : ∀ p, (accountOf db p).Uncleared
  seen : ∀ p conv, ∀ tag ∈ FraudTag.outcome, (accountOf db p).Seen conv tag →
    ∃ e ∈ log, ∃ o, call e.1 = .outcome o ∧ o.profileId = p ∧ o.tag = tag.name ∧
      keyOf (outcomeItem o) = conv

variable {call}

theorem Reported.empty : Reported call [] RiskDb.empty where
  uncleared p := AccountState.Uncleared.empty
  seen p conv tag _ h := by
    obtain ⟨entry, member, _⟩ := h
    cases member

variable {log : List (T × IngestResponse)} {db : EngineDb exactOps} {iso : IsoFormat}

/-- A call that leaves the accounts alone, or changes one: the new state is uncleared, and shows
no tag of a report but the old ones and the call's own. -/
theorem Reported.next (h : Reported call log db) {db' : EngineDb exactOps}
    {e : T × IngestResponse} (p : String)
    (others : ∀ q, q ≠ p → accountOf db' q = accountOf db q)
    (uncleared : (accountOf db' p).Uncleared)
    (seen : ∀ conv, ∀ tag ∈ FraudTag.outcome, (accountOf db' p).Seen conv tag →
      (accountOf db p).Seen conv tag ∨ ∃ o, call e.1 = .outcome o ∧ o.profileId = p ∧
        o.tag = tag.name ∧ keyOf (outcomeItem o) = conv) :
    Reported call (log ++ [e]) db' where
  uncleared q := by
    by_cases mine : q = p
    · exact mine ▸ uncleared
    · rw [others q mine]
      exact h.uncleared q
  seen q conv tag outcome shown := by
    have old : (accountOf db q).Seen conv tag → ∃ x ∈ log ++ [e], ∃ o, call x.1 = .outcome o ∧
        o.profileId = q ∧ o.tag = tag.name ∧ keyOf (outcomeItem o) = conv := fun before => by
      obtain ⟨x, logged, reported⟩ := h.seen q conv tag outcome before
      exact ⟨x, List.mem_append_left _ logged, reported⟩
    by_cases mine : q = p
    · subst mine
      rcases seen conv tag outcome shown with before | reported
      · exact old before
      · exact ⟨e, by simp, reported⟩
    · rw [others q mine] at shown
      exact old shown

/-- The state that a call of the engine leaves: uncleared, with the tags of its items. -/
theorem vendored_uncleared {clock : DateTime} {p : String} {signals outcomes : List SignalItem}
    {out : SignalsOutput (AccountState exactOps)}
    (h : (accountOf db p).Uncleared)
    (others : ∀ item ∈ signals ++ outcomes, item.tag ≠ FraudTag.clearedByReview.name)
    (answered : (vendored exactOps iso).processSignals clock p
      ((db (.profileRisk p)).map (·.state)) signals outcomes = .ok out) :
    out.state.Uncleared ∧ ∀ conv tag, out.state.Seen conv tag → (accountOf db p).Seen conv tag ∨
      ∃ item ∈ signals ++ outcomes, conv = keyOf item ∧ item.tag = tag.name := by
  obtain ⟨now, last, folded, isFold, states, seen⟩ := vendored_signals iso answered
  constructor
  · rw [AccountState.Uncleared, states, isFold]
    exact (h.decayed now last).foldl iso others
  · intro conv tag shown
    have inFold := seen conv tag shown
    rw [isFold] at inFold
    have before := foldl_seen iso inFold
    exact before

theorem uncleared_known {o : Outcome} (known : o.tag ∈ outcomeTags) :
    ∃ tag ∈ FraudTag.outcome, o.tag = tag.name ∧ tag ≠ .clearedByReview := by
  have named : ∀ s ∈ outcomeTags, ∃ tag ∈ FraudTag.outcome, s = tag.name ∧
      tag ≠ .clearedByReview := by decide
  exact named o.tag known

/-- The tags of a record are those of a conversation, never those of a report. -/
theorem senderSignals_velocity (iso : IsoFormat) (db : EngineDb exactOps) (r : SignalRecord)
    (stage : Option String) :
    ∀ item ∈ senderSignals r (passOf iso db r stage).derivedTags,
      ∃ tag ∈ FraudTag.velocity, item.tag = tag.name := by
  rw [processConversation_derived]
  intro item member
  have tags := (senderSignals_event r (tagsOf iso db r stage) (eventOf r stage).ts).1
  have derived : item.tag ∈ tagsOf iso db r stage := tags ▸ List.mem_map_of_mem member
  exact derivedNames_velocity _ (passTags_fresh iso _ _ derived).1

theorem velocity_uncleared :
    ∀ tag ∈ FraudTag.velocity, tag.name ≠ FraudTag.clearedByReview.name := by
  decide

/-- One committed call. -/
theorem Reported.step (hashtext : String → ℤ) {clock : DateTime} {t : T} {a a' : IngestResponse}
    {db' : EngineDb exactOps} (h : Reported call log db)
    (known : ∀ o, call t = .outcome o → o.tag ∈ outcomeTags)
    (ran : ((call t).program (vendored exactOps iso) hashtext clock).run db = .ok (a', db')) :
    Reported call (log ++ [(t, a)]) db' := by
  cases made : call t with
  | record r =>
    rw [made] at ran
    have untouched : ∀ {db' : EngineDb exactOps}, (∀ q, accountOf db' q = accountOf db q) →
        Reported call (log ++ [(t, a)]) db' := fun same =>
      h.next "" (fun q _ => same q) (same _ ▸ h.uncleared _) fun conv tag _ shown =>
        .inl (same _ ▸ shown)
    cases ingestRecord_run (vendored exactOps iso) hashtext clock ran with
    | duplicate _ => exact untouched fun q => rfl
    | stored event out tier => exact untouched fun q => by simp [accountOf]
    | folded event out sig mapped _ conv _ answered =>
      obtain ⟨stage, _, rfl⟩ := toConversationEvent_ok mapped
      obtain rfl := Except.ok.inj conv
      have velocity := senderSignals_velocity iso db r stage
      obtain ⟨uncleared, seen⟩ := vendored_uncleared (h.uncleared r.srcProfileId) (by
        intro item member
        rw [List.append_nil] at member
        obtain ⟨tag, isVelocity, named⟩ := velocity item member
        exact named ▸ velocity_uncleared tag isVelocity) answered
      refine h.next r.srcProfileId (fun q other => ?_) ?_ fun conv tag outcome shown => ?_
      · rw [accountOf_foldedDb, if_neg other]
        simp [accountOf]
      · rw [accountOf_foldedDb, if_pos rfl]
        exact uncleared
      · rw [accountOf_foldedDb, if_pos rfl] at shown
        rcases seen conv tag shown with old | ⟨item, member, -, named⟩
        · exact .inl old
        · -- a record shows no tag of a report
          rw [List.append_nil] at member
          obtain ⟨u, isVelocity, same⟩ := velocity item member
          rw [FraudTag.name_inj (named.symm.trans same)] at outcome
          exact absurd outcome (velocity_not_outcome u isVelocity)
  | outcome o =>
    rw [made, RiskCall.program, ingestOutcome_run] at ran
    split at ran
    · cases ran
    next out answered =>
      simp only [Except.ok.injEq, Prod.mk.injEq] at ran
      obtain ⟨-, rfl⟩ := ran
      obtain ⟨u, _, named, other⟩ := uncleared_known (known o made)
      obtain ⟨uncleared, seen⟩ := vendored_uncleared (h.uncleared o.profileId) (by
        intro item member
        rw [List.nil_append, List.mem_singleton] at member
        subst member
        exact fun same => other (FraudTag.name_inj (named.symm.trans same))) answered
      refine h.next o.profileId (fun q other => ?_) ?_ fun conv tag _ shown => ?_
      · rw [accountOf_foldedDb, if_neg other]
        simp [accountOf, reportedDb, Store.write]
      · rw [accountOf_foldedDb, if_pos rfl]
        exact uncleared
      · rw [accountOf_foldedDb, if_pos rfl] at shown
        rcases seen conv tag shown with old | ⟨item, member, here, tagged⟩
        · exact .inl old
        · rw [List.nil_append, List.mem_singleton] at member
          subst member
          exact .inr ⟨o, made, rfl, tagged, here.symm⟩

/-! ### The alarm -/

/-- An open row stays, and a fold at the threshold leaves one. -/
theorem ShowsFold.opens {C P : Type} {db db' : RiskDb C P} {call : RiskCall} {out : SignalsOutput P}
    (shows : ShowsFold db db' call out) (p : String)
    (cause : hasOpen (db (.reviewQueue p)) = true ∨ p = call.subject ∧ queueAt ≤ out.riskScore) :
    hasOpen (db' (.reviewQueue p)) = true := by
  rw [shows.queue]
  cases opened : hasOpen (db (.reviewQueue p)) with
  | true =>
    unfold hasOpen at opened ⊢
    rw [List.any_append, opened, Bool.true_or]
  | false =>
    rw [opened] at cause
    obtain ⟨mine, high⟩ := cause.resolve_left (by simp)
    rw [if_pos ⟨mine, high, rfl⟩]
    unfold hasOpen
    rw [List.any_append]
    cases call <;> simp [RiskCall.queued, queueRow]

/-- What a first report is answered. -/
structure RaisesAlarm (db : EngineDb exactOps) (o : Outcome) (a : IngestResponse) (tag : FraudTag) :
    Prop where
  named : o.tag = tag.name
  answer : ∃ tier score repeated, a = .folded tier score repeated ∧ scoreOf tag.weight ≤ score ∧
    (tag = .confirmedFraud → tier = .critical ∧ 826 / 10 ≤ score)
  queued : 8 ≤ tag.weight → hasOpen (db (.reviewQueue o.profileId)) = true

variable [DecidableEq T] (hashtext : String → ℤ) (clock : T → DateTime)

/-- In every state of every interleaving, a committed report that no call before it has made for
its tag in its conversation has been answered with at least what the tag scores alone. A confirmed
fraud is critical, and each report of weight 8 or more has the profile's row open in the queue. -/
theorem first_report_raises {c : RiskConf T ConversationState (AccountState exactOps)}
    (h : Reachable (programs (vendored exactOps iso) hashtext call clock) RiskDb.empty c)
    (known : ∀ t o, call t = .outcome o → o.tag ∈ outcomeTags)
    {before after : List (T × IngestResponse)} {t : T} {a : IngestResponse} {o : Outcome}
    (logged : c.log = before ++ (t, a) :: after) (made : call t = .outcome o)
    (first : FirstReport call before o) : ∃ tag, RaisesAlarm c.db o a tag := by
  have inv : Inv (guardOf hashtext) eraseTier (programs (vendored exactOps iso) hashtext call clock)
      RiskDb.empty c := h.inv fun t => program_covered _ hashtext (clock t) (call t)
  have serial := inv.serial
  rw [logged] at serial
  obtain ⟨mid, a', db', earlier, ran, look, later⟩ := serial.split
  have held : Reported call before mid := by
    have all := earlier.tracks (P := Reported call)
      (fun log db t a a' db' held ran => held.step hashtext (known t) ran) Reported.empty
    rwa [List.nil_append] at all
  obtain ⟨tag, outcome, named, other⟩ := uncleared_known (known t o made)
  -- the report finds an uncleared account that does not show its tag
  have fresh : ¬(accountOf mid o.profileId).Seen (keyOf (outcomeItem o)) tag := by
    intro shown
    obtain ⟨e, member, o', made', profile, same, conv⟩ := held.seen _ _ tag outcome shown
    exact first e member o' made' profile (same.trans named.symm) conv
  have shows := program_shows (vendored exactOps iso) hashtext ran
  unfold programs at ran
  rw [made, RiskCall.program, ingestOutcome_run] at ran
  split at ran
  · cases ran
  next out answered =>
    simp only [Except.ok.injEq, Prod.mk.injEq] at ran
    obtain ⟨rfl, -⟩ := ran
    obtain ⟨least, tier⟩ := outcome_scores iso (held.uncleared o.profileId)
      (FraudTag.ofName_eq.mpr named) other fresh ⟨rfl, rfl⟩ answered
    have answer : a = foldedAnswer out := by
      cases a with
      | folded => exact look.symm
      | duplicate | noFold => cases look
    refine ⟨tag, named, ⟨_, _, _, answer, least, ?_⟩, fun heavy => ?_⟩
    · rintro rfl
      have high : 826 / 10 ≤ out.riskScore := by
        refine le_trans ?_ least
        simpa [FraudTag.weight] using scoreOf_fourteen
      refine ⟨?_, high⟩
      unfold tierOf at tier
      rw [if_neg (by linarith), if_neg (by linarith), if_neg (by linarith)] at tier
      split at tier
      · exact (Except.ok.inj tier).symm
      · cases tier
    · have high : queueAt ≤ out.riskScore := by
        have mono : scoreOf 8 ≤ scoreOf tag.weight := scoreOf_mono (by exact_mod_cast heavy)
        have eight := scoreOf_eight
        unfold queueAt
        linarith
      -- the row is open after the report, and no later call closes it
      refine later.keeps (P := fun db => hasOpen (db (.reviewQueue o.profileId)) = true)
        (fun u db b db'' ran opened => ?_) ?_
      · rcases program_shows (vendored exactOps iso) hashtext ran with ⟨_, -, fold, -⟩ | ⟨-, same⟩
        · exact fold.opens _ (.inl opened)
        · rw [(same o.profileId).2]
          exact opened
      · rcases shows with ⟨out', same, fold, -⟩ | ⟨silent, -⟩
        · rw [made] at fold
          have score : out.riskScore = out'.riskScore := by
            simp only [foldedAnswer, IngestResponse.folded.injEq] at same
            exact same.2.1
          exact fold.opens _ (.inr ⟨rfl, score ▸ high⟩)
        · exact absurd rfl (silent _ _ _)

/-- First an undelivered order, then a confirmed fraud. -/
def orderThenFraud (second : Bool) : RiskCall :=
  .outcome { profileId := "p", tag := if second then "confirmed_fraud" else "paid_not_delivered" }

/-- The report of the fraud finds the account with another report on it. -/
theorem first_report_raises_orderThenFraud :
    ∃ (c : RiskConf Bool ConversationState (AccountState exactOps)) (before : _) (a : _),
      c.log = before ++ [(true, a)] ∧ before ≠ [] ∧
      (∃ score repeated, a = .folded .critical score repeated) ∧
      hasOpen (c.db (.reviewQueue "p")) = true := by
  have runs : ∀ t (db : EngineDb exactOps), ∃ a db', (programs (vendored exactOps epochDates)
      (fun _ => 0) orderThenFraud (fun _ => ⟨0, 0⟩) t).run db = .ok (a, db') := by
    intro t db
    obtain ⟨out, _, _, answered, -⟩ := processSignals_ok exactOps epochDates ⟨0, 0⟩
      ((db (.profileRisk "p")).map (·.state)) [] [outcomeItem
        { profileId := "p", tag := if t then "confirmed_fraud" else "paid_not_delivered" }]
    simp only [programs, orderThenFraud, RiskCall.program, ingestOutcome_run, vendored, answered]
    exact ⟨_, _, rfl⟩
  obtain ⟨a, db, ran⟩ := runs false RiskDb.empty
  obtain ⟨a', db', ran'⟩ := runs true db
  have ordered : Reachable (programs (vendored exactOps epochDates) (fun _ => 0) orderThenFraud
      fun _ => ⟨0, 0⟩) RiskDb.empty _ :=
    Reachable.start.solo (t := false) (by rintro u held w rest ⟨⟩) rfl ran
  have both := ordered.solo (t := true)
    (Quiet.committed (by rintro u held w rest ⟨⟩) _ _ _ _) rfl ran'
  obtain ⟨tag, raises⟩ := first_report_raises (fun _ => 0) (fun _ => ⟨0, 0⟩) both
    (by rintro (_ | _) o ⟨⟩ <;> decide) (show _ = [(false, a)] ++ (true, a') :: [] from rfl) rfl (by
      rintro ⟨t, _⟩ member o' made - same
      obtain ⟨rfl, -⟩ := Prod.mk.inj (List.mem_singleton.mp member)
      cases made
      simp at same)
  obtain rfl : FraudTag.confirmedFraud = tag := FraudTag.name_inj raises.named
  obtain ⟨tier, score, repeated, rfl, -, critical⟩ := raises.answer
  obtain ⟨rfl, -⟩ := critical rfl
  exact ⟨_, _, _, rfl, by simp, ⟨_, _, rfl⟩, raises.queued (by norm_num [FraudTag.weight])⟩

end DostReview.Risk
