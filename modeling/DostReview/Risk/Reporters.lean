import DostReview.Engine.Repeats
import DostReview.Risk.Agreement

/-!
# Independent reporters

Reports of one tag about one profile, from different people, through `POST /outcomes`. A
report without a session is filed under a conversation named after its tag, so of all such
reports the engine counts one. When every report has a conversation of its own, all of them
are counted, and three recent ones are seen as repeated.
-/
namespace DostReview.Risk

open Locking Engine

variable {F : FloatOps} {iso : IsoFormat} {T : Type} (report : T → Outcome) (clock : T → DateTime)

/-- The session that a report names; an empty one is none. -/
def sessionOf (o : Outcome) : Option String := o.sessionId.filter (· ≠ "")

/-- The committed calls about a profile, in commit order. -/
def foldsOf (p : String) (log : List (T × IngestResponse)) : List T :=
  (log.map Prod.fst).filter fun u => (report u).profileId = p

/-- The committed reports of a tag about a profile. -/
def reportsAbout (t : FraudTag) (p : String) (log : List (T × IngestResponse)) : List T :=
  (foldsOf report p log).filter fun u => (report u).tag = t.name

/-- A call as `process_signals` is told of it. -/
def told (u : T) : Told := (clock u, outcomeItem (report u))

theorem reportsOf_told (t : FraudTag) (us : List T) :
    reportsOf t (us.map (told report clock)) =
      (us.filter fun u => (report u).tag = t.name).map (told report clock) := by
  simp [reportsOf, List.filter_map, Function.comp_def, told, outcomeItem]

theorem keyOf_outcomeItem (o : Outcome) :
    keyOf (outcomeItem o) = (sessionOf o).getD ("outcome:" ++ o.tag) := rfl

/-- Every report of the tag names a reporter, and no two of them end in one conversation. -/
structure Separate (t : FraudTag) (us : List T) : Prop where
  named : ∀ u ∈ us, (report u).tag = t.name → ∃ r, (report u).reporterId = some r ∧ r ≠ ""
  keys : (us.filter fun u => (report u).tag = t.name).Pairwise fun u v =>
    keyOf (outcomeItem (report u)) ≠ keyOf (outcomeItem (report v))

variable {report} {t : FraudTag}

theorem Separate.init {us : List T} {u : T} (h : Separate report t (us ++ [u])) :
    Separate report t us where
  named v hv := h.named v (List.mem_append_left _ hv)
  keys := by
    have keys := h.keys
    rw [List.filter_append] at keys
    exact (List.pairwise_append.mp keys).1

theorem Separate.fresh {us : List T} {u : T} (h : Separate report t (us ++ [u])) :
    Fresh t (us.map (told report clock)) (outcomeItem (report u)) where
  undated := rfl
  untimed := rfl
  reporter tagged := h.named u (by simp) tagged
  conversation tagged c hc := by
    rw [reportsOf_told] at hc
    obtain ⟨v, hv, rfl⟩ := List.mem_map.mp hc
    have keys := h.keys
    have last : [u].filter (fun u => (report u).tag = t.name) = [u] := by
      have mine : (report u).tag = t.name := tagged
      simp [mine]
    rw [List.filter_append, last] at keys
    exact (List.pairwise_append.mp keys).2.2 v hv u (by simp)

/-- What is stored of the profiles after the committed calls. -/
def Heard (report : T → Outcome) (clock : T → DateTime) (iso : IsoFormat) (t : FraudTag)
    (log : List (T × IngestResponse)) (db : EngineDb F) : Prop :=
  ∀ p, Separate report t (foldsOf report p log) →
    match db (.profileRisk p) with
    | none => foldsOf report p log = []
    | some row => ∃ now, Remembers iso t ((foldsOf report p log).map (told report clock)) row.state
        row.repeatedAcross now

theorem foldsOf_append (p : String) (log : List (T × IngestResponse)) (u : T) (a : IngestResponse) :
    foldsOf report p (log ++ [(u, a)]) =
      foldsOf report p log ++ if (report u).profileId = p then [u] else [] := by
  simp only [foldsOf, List.map_append, List.filter_append, List.map_cons, List.map_nil,
    List.filter_singleton]
  by_cases mine : (report u).profileId = p
  · simp [mine]
  · simp [mine]

variable (hashtext : String → ℤ)

theorem Heard.step (stamps : ∀ u, parseIso iso (iso.isoformat (clock u)) = some (clock u))
    {log : List (T × IngestResponse)} {db db' : EngineDb F} {u : T} {a a' : IngestResponse}
    (h : Heard report clock iso t log db)
    (ran : (programs (vendored F iso) hashtext (fun u => .outcome (report u)) clock u).run db =
      .ok (a', db')) :
    Heard report clock iso t (log ++ [(u, a)]) db' := by
  rw [programs, RiskCall.program, ingestOutcome_run] at ran
  cases answered : (vendored F iso).processSignals (clock u) (report u).profileId
      ((db (.profileRisk (report u).profileId)).map (·.state)) [] [outcomeItem (report u)] with
  | error e => simp [answered] at ran
  | ok out =>
    simp only [answered, Except.ok.injEq, Prod.mk.injEq] at ran
    obtain ⟨-, rfl⟩ := ran
    intro p separate
    rw [foldedDb_profileRisk]
    -- the call changes the row of its own profile only
    by_cases mine : p = (report u).profileId
    · subst mine
      rw [foldsOf_append, if_pos rfl] at separate
      rw [foldsOf_append, if_pos rfl, if_pos rfl, List.map_append]
      have before := h _ separate.init
      have fresh := separate.fresh clock
      cases stored : db (.profileRisk (report u).profileId) with
      | none =>
        rw [stored] at before answered
        simp only at before
        rw [before] at fresh ⊢
        exact ⟨clock u, remembers_first fresh answered (stamps u)⟩
      | some row =>
        rw [stored] at before answered
        obtain ⟨last, remembers⟩ := before
        exact remembers.next fresh answered (stamps u)
    · have other : (report u).profileId ≠ p := Ne.symm mine
      rw [foldsOf_append, if_neg other, List.append_nil] at separate ⊢
      rw [if_neg mine]
      have same : reportedDb db (report u) (.profileRisk p) = db (.profileRisk p) := by
        simp [reportedDb, Store.write]
      rw [same]
      exact h p separate

theorem heard [DecidableEq T]
    (stamps : ∀ u, parseIso iso (iso.isoformat (clock u)) = some (clock u))
    {c : RiskConf T ConversationState (AccountState F)}
    (h : Reachable (programs (vendored F iso) hashtext (fun u => .outcome (report u)) clock)
      RiskDb.empty c) (t : FraudTag) : Heard report clock iso t c.log c.db := by
  have serial := serializable h fun u =>
    program_covered (vendored F iso) hashtext (clock u) (.outcome (report u))
  have base : Heard report clock iso t [] (RiskDb.empty : EngineDb F) := fun p _ => rfl
  have all := serial.tracks (P := Heard report clock iso t)
    (fun log db u a a' db' before ran => before.step clock hashtext stamps ran) base
  rwa [List.nil_append] at all

/-! ### The reports of different people -/

/-- Each report names its reporter, no two the same one, and no two name one session. -/
structure Independent (report : T → Outcome) (us : List T) : Prop where
  named : ∀ u ∈ us, ∃ r, (report u).reporterId = some r ∧ r ≠ ""
  reporters : (us.map fun u => (report u).reporterId).Nodup
  sessions : us.Pairwise fun u v =>
    ∀ s, sessionOf (report u) = some s → sessionOf (report v) ≠ some s

/-- At most one of the reports names no session, and then no session is named like the
conversation that the service makes up for it. -/
structure OwnConversations (report : T → Outcome) (t : FraudTag) (us : List T) : Prop where
  anonymous : us.Pairwise fun u v =>
    sessionOf (report u) ≠ none ∨ sessionOf (report v) ≠ none
  reserved : ∀ u ∈ us, sessionOf (report u) = none →
    ∀ v ∈ us, sessionOf (report v) ≠ some ("outcome:" ++ t.name)

/-- The reports `us` of the tag are all counted, and whenever three of them are no older than 7 days
at an instant after all folds of the profile, the tag is in the stored `repeatedAcross`. -/
structure SeenApart (report : T → Outcome) (clock : T → DateTime) (t : FraudTag) (p : String)
    (log : List (T × IngestResponse)) (db : EngineDb F) : Prop where
  count : (accountOf db p).count t = (reportsAbout report t p log).length
  repeated : ∀ now, (∀ u ∈ foldsOf report p log, (clock u).instant ≤ now) →
    3 ≤ ((reportsAbout report t p log).filter fun u => now - days 7 ≤ (clock u).instant).length →
    ∃ row, db (.profileRisk p) = some row ∧ t.name ∈ row.repeatedAcross

theorem separate_of_own {us : List T}
    (independent : Independent report (us.filter fun u => (report u).tag = t.name))
    (own : OwnConversations report t (us.filter fun u => (report u).tag = t.name)) :
    Separate report t us where
  named u hu tagged := independent.named u (by simp [hu, tagged])
  keys := by
    apply List.Pairwise.imp_of_mem ?_ (independent.sessions.and own.anonymous)
    rintro u v hu hv ⟨sessions, anonymous⟩
    have tagU : (report u).tag = t.name := of_decide_eq_true (List.mem_filter.mp hu).2
    have tagV : (report v).tag = t.name := of_decide_eq_true (List.mem_filter.mp hv).2
    rw [keyOf_outcomeItem, keyOf_outcomeItem, tagU, tagV]
    -- a session keys its own conversation; without one the key is made up from the tag
    cases nameU : sessionOf (report u) with
    | none =>
      cases nameV : sessionOf (report v) with
      | none => simp [nameU, nameV] at anonymous
      | some s =>
        have other := own.reserved u hu nameU v hv
        rw [nameV] at other
        exact fun same => other (congrArg some same.symm)
    | some s =>
      cases nameV : sessionOf (report v) with
      | none =>
        have other := own.reserved v hv nameV u hu
        rw [nameU] at other
        exact fun same => other (congrArg some same)
      | some s' =>
        have other := sessions s nameU
        rw [nameV] at other
        exact fun same => other (congrArg some same.symm)

theorem Heard.seenApart {p : String} {log : List (T × IngestResponse)} {db : EngineDb F}
    (h : Heard report clock iso t log db)
    (independent : Independent report (reportsAbout report t p log))
    (own : OwnConversations report t (reportsAbout report t p log)) :
    SeenApart report clock t p log db := by
  have stored := h p (separate_of_own independent own)
  cases found : db (.profileRisk p) with
  | none =>
    rw [found] at stored
    -- no row is stored, so no call about the profile has committed
    have nothing : reportsAbout report t p log = [] := by
      rw [reportsAbout, stored]
      rfl
    refine ⟨?_, ?_⟩
    · rw [nothing, accountOf, found]
      rfl
    · intro now _ three
      simp [nothing] at three
  | some row =>
    rw [found] at stored
    obtain ⟨last, remembers⟩ := stored
    refine ⟨?_, ?_⟩
    · rw [accountOf, found, Option.map_some, Option.getD_some, remembers.tells.count, reportsOf_told,
        List.length_map]
      rfl
    · intro now after three
      refine ⟨row, found, remembers.repeats ?_ ?_⟩
      · rw [reportsOf_told, List.map_map]
        exact independent.reporters
      · -- the last fold was not after `now`
        obtain ⟨c, hc, reading⟩ := remembers.reading
        obtain ⟨u, hu, rfl⟩ := List.mem_map.mp hc
        have bound : last.instant ≤ now := reading ▸ after u hu
        rw [reportsOf_told, List.filter_map, List.length_map]
        apply three.trans
        apply List.Sublist.length_le
        apply List.monotone_filter_right
        intro v recent
        have late : now - days 7 ≤ (clock v).instant := of_decide_eq_true recent
        have later : last.instant - days 7 ≤ (clock v).instant := by omega
        exact decide_eq_true later

/-- In every run of committed reports of a tag about a profile by different people, in which every
report has a conversation of its own, all of them are counted and three recent ones are
repeated. -/
theorem reporters_seen_apart [DecidableEq T]
    (stamps : ∀ u, parseIso iso (iso.isoformat (clock u)) = some (clock u))
    {c : RiskConf T ConversationState (AccountState F)}
    (h : Reachable (programs (vendored F iso) hashtext (fun u => .outcome (report u)) clock)
      RiskDb.empty c) (t : FraudTag) (p : String)
    (independent : Independent report (reportsAbout report t p c.log))
    (own : OwnConversations report t (reportsAbout report t p c.log)) :
    SeenApart report clock t p c.log c.db :=
  (heard clock hashtext stamps h t).seenApart clock independent own

/-! ### Reports one after another -/

/-- What is stored of a profile after one more call about it: its account and its repeated tags. -/
def afterReport (iso : IsoFormat) (clock : DateTime) (o : Outcome)
    (stored : Option (AccountState F × List String)) : AccountState F × List String :=
  let prev := stored.map Prod.fst
  let now := nowOf iso clock prev
  let folded := foldedOf iso clock prev [outcomeItem o]
  (folded.pruned iso now, repeatedTags iso now folded.recent)

def afterReports (report : T → Outcome) (clock : T → DateTime) (iso : IsoFormat) (p : String)
    (us : List T) : Option (AccountState F × List String) :=
  us.foldl (fun stored u =>
    if (report u).profileId = p then some (afterReport iso (clock u) (report u) stored) else stored)
    none

def storedOf (db : EngineDb F) (p : String) : Option (AccountState F × List String) :=
  (db (.profileRisk p)).map fun row => (row.state, row.repeatedAcross)

variable (F iso report)

/-- Any calls can commit one after another, and the profiles' rows are what the calls make of
them. -/
theorem reports_commit [DecidableEq T] (us : List T) (distinct : us.Nodup) :
    ∃ c : RiskConf T ConversationState (AccountState F),
      Reachable (programs (vendored F iso) hashtext (fun u => .outcome (report u)) clock)
        RiskDb.empty c ∧
      c.log.map Prod.fst = us ∧ (∀ p, storedOf c.db p = afterReports report clock iso p us) ∧
      Quiet c ∧ ∀ u, u ∉ us → c.txn u = .idle := by
  induction us using List.reverseRecOn with
  | nil => exact ⟨_, .start, rfl, fun p => rfl, (by rintro u held w rest ⟨⟩), fun u _ => rfl⟩
  | append_singleton us u ih =>
    obtain ⟨distinctInit, -, apart⟩ := List.nodup_append.mp distinct
    obtain ⟨c, reached, log, stored, quiet, idle⟩ := ih distinctInit
    have new : u ∉ us := fun hu => apart u hu u (by simp) rfl
    obtain ⟨out, answered⟩ : ∃ out, (vendored F iso).processSignals (clock u) (report u).profileId
        ((c.db (.profileRisk (report u).profileId)).map (·.state)) [] [outcomeItem (report u)] =
          .ok out := by
      obtain ⟨out, _, _, ok, -⟩ := processSignals_ok F iso (clock u)
        ((c.db (.profileRisk (report u).profileId)).map (·.state)) [] [outcomeItem (report u)]
      exact ⟨out, by simp only [vendored, ok]⟩
    have ran := ingestOutcome_run (vendored F iso) hashtext (clock u) (report u) c.db
    rw [answered] at ran
    -- with no other call under way it runs from its start to its commit
    have next := reached.solo quiet (idle u new) ran
    refine ⟨_, next, by simp [log], ?_, quiet.committed _ _ _ _, ?_⟩
    · intro p
      obtain ⟨repeated, state⟩ := vendored_answer iso answered
      rw [afterReports, List.foldl_append, List.foldl_cons, List.foldl_nil]
      change storedOf (foldedDb _ _ _ _ _ out) p = ite _ (some _) (afterReports report clock iso p us)
      rw [storedOf, foldedDb_profileRisk]
      by_cases mine : (report u).profileId = p
      · subst mine
        have prev : (c.db (.profileRisk (report u).profileId)).map (·.state) =
            (storedOf c.db (report u).profileId).map Prod.fst := by
          simp [storedOf, Function.comp_def]
        rw [if_pos rfl, if_pos rfl, Option.map_some, Option.some.injEq]
        change (out.state, out.repeatedAcross) = afterReport iso (clock u) (report u) _
        rw [state, repeated, prev, stored]
        rfl
      · have other : p ≠ (report u).profileId := Ne.symm mine
        rw [if_neg other, if_neg mine, ← stored p, storedOf, reportedDb]
        simp [Store.write]
    · intro v hv
      have unlogged : v ∉ us := fun old => hv (List.mem_append_left _ old)
      have other : v ≠ u := by
        rintro rfl
        exact hv (by simp)
      simpa [other] using idle v unlogged

/-- A report of a confirmed fraud about `"p"` by the person of the given name. -/
def fraudReportBy (sessionId : String → Option String) (reporter : String) : Outcome :=
  { profileId := "p"
    tag := "confirmed_fraud"
    reporterId := some reporter
    sessionId := sessionId reporter }

/-- Three people, each with a session of their own. -/
theorem reporters_seen_apart_three :
    ∃ c : RiskConf String ConversationState (AccountState rationalOps),
      SeenApart (fraudReportBy some) (fun _ => ⟨0, 0⟩) .confirmedFraud "p" c.log c.db ∧
      ∃ row, c.db (.profileRisk "p") = some row ∧ "confirmed_fraud" ∈ row.repeatedAcross := by
  obtain ⟨c, reached, log, -⟩ := reports_commit rationalOps epochDates (fraudReportBy some)
    (fun _ => ⟨0, 0⟩) (fun _ => 0) ["a", "b", "c"] (by decide)
  have reports : reportsAbout (fraudReportBy some) .confirmedFraud "p" c.log = ["a", "b", "c"] := by
    rw [reportsAbout, foldsOf, log]
    decide
  have independent : Independent (fraudReportBy some) ["a", "b", "c"] :=
    ⟨by simp [fraudReportBy], by decide, by simp [fraudReportBy, sessionOf, Option.filter]⟩
  have own : OwnConversations (fraudReportBy some) .confirmedFraud ["a", "b", "c"] :=
    ⟨by simp [fraudReportBy, sessionOf, Option.filter],
      by simp [fraudReportBy, sessionOf, Option.filter]⟩
  have apart := reporters_seen_apart (fun _ => ⟨0, 0⟩) (fun _ => 0) (fun _ => by decide) reached
    .confirmedFraud "p" (reports ▸ independent) (reports ▸ own)
  refine ⟨c, apart, apart.repeated 0 (fun _ _ => Int.le_refl _) ?_⟩
  rw [reports]
  decide

/-- The same three people without sessions: one report is counted, and nothing is repeated. -/
theorem anonymous_reporters_merged :
    ∃ c : RiskConf String ConversationState (AccountState rationalOps),
      Reachable (programs (vendored rationalOps epochDates) (fun _ => 0)
        (fun u => .outcome (fraudReportBy (fun _ => none) u)) fun _ => ⟨0, 0⟩) RiskDb.empty c ∧
      reportsAbout (fraudReportBy fun _ => none) .confirmedFraud "p" c.log = ["a", "b", "c"] ∧
      Independent (fraudReportBy fun _ => none) ["a", "b", "c"] ∧
      (accountOf c.db "p").count .confirmedFraud = 1 ∧
      (∀ row, c.db (.profileRisk "p") = some row → row.repeatedAcross = []) ∧
      ¬SeenApart (fraudReportBy fun _ => none) (fun _ => ⟨0, 0⟩) .confirmedFraud "p" c.log c.db := by
  obtain ⟨c, reached, log, stored, -⟩ := reports_commit rationalOps epochDates
    (fraudReportBy fun _ => none) (fun _ => ⟨0, 0⟩) (fun _ => 0) ["a", "b", "c"] (by decide)
  have reports : reportsAbout (fraudReportBy fun _ => none) .confirmedFraud "p" c.log =
      ["a", "b", "c"] := by
    rw [reportsAbout, foldsOf, log]
    decide
  have independent : Independent (fraudReportBy fun _ => none) ["a", "b", "c"] :=
    ⟨by simp [fraudReportBy], by decide, by simp [fraudReportBy, sessionOf]⟩
  have left : (storedOf c.db "p").map (fun s => (s.1.count .confirmedFraud, s.2)) = some (1, []) := by
    rw [stored]
    decide +kernel
  obtain ⟨s, found, eq⟩ := Option.map_eq_some_iff.mp left
  obtain ⟨row, here, rfl⟩ := Option.map_eq_some_iff.mp found
  obtain ⟨once, nothing⟩ := Prod.mk.inj eq
  have count : (accountOf c.db "p").count .confirmedFraud = 1 := by
    rw [accountOf, here]
    exact once
  refine ⟨c, reached, reports, independent, count, ?_, ?_⟩
  · intro row' found'
    cases here.symm.trans found'
    exact nothing
  · intro apart
    have all := apart.count
    rw [count, reports] at all
    simp at all

end DostReview.Risk
