/-
  Completion safety: what lies behind every `completed` event.

  `CompletionInv` carries the trigger, the fence and the counts of a job through a run. With the
  rounds of the checkpoint slot it gives `completion_safe`.
-/
import LibtorrentKit.Session.Completions
import LibtorrentKit.Session.Jobs

namespace LibtorrentKit

open History Session

/-! ## The invariant -/

/-- An entry that does not count for `id`. -/
structure Uncounted (id : String) (e : Entry) : Prop where
  verdict : e.isVerdict id = false
  fence : e.isFence id = false
  begin : e ≠ .mail (.begin id)

theorem not_trigger_of_outside {id : String} {e : Entry} (h : ¬ e.Concerns id) :
    ¬ IsCompleting id e ∧ ¬ IsBegan id e := by
  refine ⟨?_, ?_⟩
  · rintro ⟨_, _, rfl⟩
    exact h rfl
  · rintro ⟨_, _, _, rfl⟩
    exact h rfl

theorem uncounted_of_outside {id : String} {e : Entry} (h : ¬ e.Concerns id) : Uncounted id e := by
  refine ⟨?_, ?_, ?_⟩
  · cases e with
    | mail event =>
        cases event with
        | submit i kind json =>
            have hi : i ≠ id := h
            cases kind <;> simp [Entry.isVerdict, hi]
        | _ => rfl
    | _ => rfl
  · cases e with
    | began i handle flush completion =>
        have hi : i ≠ id := h
        simp [Entry.isFence, hi]
    | _ => rfl
  · rintro rfl
    exact h rfl

theorem life_append {id : String} {new : List Entry} (h : ∀ e ∈ new, e ≠ .mail (.begin id))
    (log : List Entry) : life id (log ++ new) = life id log ++ new :=
  since_append (fun e he => by simpa using h e he) log

theorem counts_uncounted {id : String} {new : List Entry} (h : ∀ e ∈ new, Uncounted id e)
    (log : List Entry) :
    verdicts id (log ++ new) = verdicts id log ∧ fences id (log ++ new) = fences id log := by
  have hv : new.countP (Entry.isVerdict id) = 0 := by
    rw [List.countP_eq_zero]
    exact fun e he => by simp [(h e he).verdict]
  have hf : new.countP (Entry.isFence id) = 0 := by
    rw [List.countP_eq_zero]
    exact fun e he => by simp [(h e he).fence]
  unfold verdicts fences
  rw [life_append (fun e he => (h e he).begin), List.countP_append, List.countP_append, hv, hf]
  exact ⟨rfl, rfl⟩

/-- No action begins the life of a torrent. -/
theorem emits_not_begin {id : String} {actions : List Action} {new : List Entry}
    (h : Emits id actions new) (i : String) : ∀ e ∈ new, e ≠ .mail (.begin i) := by
  rintro e he rfl
  rcases emits_mem h he with ⟨a, _, hae⟩ | ⟨_, _, heq⟩
  · cases a <;> simp [actionEntry] at hae
  · cases heq

theorem counts_emits {id : String} {actions : List Action} {new : List Entry}
    (h : Emits id actions new) (log : List Entry) :
    verdicts id (log ++ new) = verdicts id log + tally (Entry.isVerdict id) id actions ∧
      fences id (log ++ new) = fences id log + tally (Entry.isFence id) id actions := by
  unfold verdicts fences
  rw [life_append (emits_not_begin h id), List.countP_append, List.countP_append,
    emits_countP (fun _ _ _ => rfl) h, emits_countP (fun _ _ _ => rfl) h]
  exact ⟨rfl, rfl⟩

/-- The trigger, the fence and the counts of one job, if it is there, and the counts of its
    identifier in any case. -/
structure CompletionInv (log : List Entry) (id : String) (o : Option Job) : Prop where
  ok : ∀ value, o = some value → value.CompletionOk log id
  counted : ∀ value, o = some value → value.Counted (verdicts id log) (fences id log)
  bound : verdicts id log ≤ 1 ∧ fences id log ≤ 2

theorem completionInv_some {log : List Entry} {id : String} {value : Job}
    (hok : value.CompletionOk log id)
    (hcounted : value.Counted (verdicts id log) (fences id log)) :
    CompletionInv log id (some value) :=
  ⟨fun _ h => Option.some.inj h ▸ hok, fun _ h => Option.some.inj h ▸ hcounted, hcounted.bound⟩

theorem completionInv_invariant : JobInvariant CompletionInv where
  init := fun id => ⟨by simp, by simp, Nat.zero_le 1, Nat.zero_le 2⟩
  frame := by
    intro log new id o h hnew
    have hcounts := counts_uncounted (fun e he => uncounted_of_outside (hnew e he)) log
    refine ⟨fun value hv => (h.ok value hv).append fun e he => not_trigger_of_outside (hnew e he),
      fun value hv => ?_, ?_⟩ <;> rw [hcounts.1, hcounts.2]
    · exact h.counted value hv
    · exact h.bound
  work := by
    intro slot closing env log new id value worked _ hwork h hemits
    refine completionInv_some (hwork.completionOk (h.ok value rfl) hemits) ?_
    rw [(counts_emits hemits log).1, (counts_emits hemits log).2]
    exact hwork.counted (h.counted value rfl)
  alert := by
    intro env log new id value a worked hok hhandle hend h hemits
    refine completionInv_some (hend.completionOk hok hhandle (h.ok value rfl) hemits) ?_
    have hsplit : log ++ .alert (some id) a :: new = (log ++ [.alert (some id) a]) ++ new := by simp
    have halert := @counts_uncounted id [.alert (some id) a]
      (fun e he => List.mem_singleton.mp he ▸ ⟨rfl, rfl, by simp⟩) log
    rw [hsplit, (counts_emits hemits _).1, (counts_emits hemits _).2, halert.1, halert.2]
    exact hend.counted hok (h.counted value rfl)
  insert := by
    intro env log rest r params desired handle _ hrest
    have hzero : verdicts r.identifier (log ++ .command (.addTorrent params handle) ::
          .mail (.begin r.identifier) :: rest) = 0 ∧
        fences r.identifier (log ++ .command (.addTorrent params handle) ::
          .mail (.begin r.identifier) :: rest) = 0 := by
      have hsplit : log ++ .command (.addTorrent params handle) ::
          .mail (.begin r.identifier) :: rest = ((log ++ [.command (.addTorrent params handle)]) ++
            [.mail (.begin r.identifier)]) ++ rest := by simp
      have hmetadata := @counts_uncounted r.identifier rest fun e he => by
        rw [hrest e he]
        exact ⟨rfl, rfl, by simp⟩
      rw [hsplit, (hmetadata _).1, (hmetadata _).2]
      simp [verdicts, fences, life, since]
    refine completionInv_some (.of_none rfl rfl) ?_
    rw [hzero.1, hzero.2]
    constructor <;> simp [newJob]
  remove := fun _ h => ⟨by simp, by simp, h.bound⟩

/-- After every run the completions are in order. -/
theorem completions_of_run {ls : List Step} {w : World}
    (hrun : Lts.exec World.step {} ls = some w) (id : String) :
    CompletionInv w.session.trace id (w.session.jobs.lookup id) :=
  completionInv_invariant.of_run hrun id

/-! ## Which step completes -/

/-- Nothing that a call does submits a `completed` event. -/
structure Session.Calm (s s' : Session) : Prop where
  grown : ∃ new, s'.trace = s.trace ++ new ∧
    ∀ e ∈ new, ∀ id json, e ≠ .mail (.submit id .completed json)

/-- Only an alert submits a `completed` event. -/
theorem World.step_calm {w w' : World} {l : Step} (hc : w.Callers) (h : w.step l = some w') :
    (∃ env alert, l = .alert env alert) ∨ w.session.Calm w'.session := by
  rcases step_fromCall hc h with hl | hg
  · exact Or.inl hl
  · obtain ⟨new, htrace, hnew⟩ := hg
    refine Or.inr ⟨new, htrace, ?_⟩
    rintro e he id json rfl
    rcases hnew _ he with hcall | hfrom
    · cases hcall
    · cases hfrom

/-- An alert that completes a job: a save that has succeeded, without an error on record, for
    a completion whose files have been verified. -/
theorem AlertEnd.completed_cases {env : Environment} {id : String} {value : Job} {alert : Alert}
    {worked : Job × List Action} (h : AlertEnd env id value alert worked) {json : String}
    (hmem : Action.enqueue .completed json ∈ worked.2) :
    (∃ request data, alert.kind = .saveResumeData request data) ∧
      value.checkpoint.barrier.phase = .saving ∧ value.completionCheckpoint = true ∧
      value.checkpoint.error = .ok ∧ FilesVerified env value.handle value.desiredFiles ∧
      ∃ status, worked.2 = [.accepted alert, .enqueue .completed status,
        .command (.removeTorrent value.handle false),
        .enqueue .stopped (stoppedAfterCompletionJson id)] := by
  cases h with
  | metadata hkind hselects htuning =>
      rcases List.mem_append.mp hmem with hmem | hmem
      · exact absurd hmem (htuning.mailless _ _)
      · simp at hmem
  | rejected hkind hselects htuning =>
      rcases List.mem_append.mp hmem with hmem | hmem
      · exact absurd hmem (htuning.mailless _ _)
      · simp at hmem
  | completing hkind hcompletes hworked =>
      subst hworked
      simp only [List.mem_cons, reduceCtorEq, false_or] at hmem
      exact absurd hmem (startWaitingCompletion_mailless _ _ _)
  | @saved request data hkind hphase fin hend =>
      simp only [List.mem_cons, reduceCtorEq, false_or] at hmem
      cases hend with
      | completion hcompletion hend =>
          cases hend with
          | recheck _ _ houtcome => simp at hmem
          | failed _ _ _ houtcome => simp at hmem
          | completed payloads metadata houtcome =>
              rw [completionOutcome_withReply, completionOutcome_completed_iff] at houtcome
              obtain ⟨hok, hverified, _⟩ := houtcome
              rw [Bool.true_and] at hok
              have herror : value.checkpoint.error = .ok := of_decide_eq_true hok
              exact ⟨⟨request, data, hkind⟩, hphase, hcompletion, herror,
                refreshSelectedPayloads_verified hverified, _, rfl⟩
      | answered _ _ => simp at hmem
      | drained _ _ => exact absurd hmem (startWaitingCompletion_mailless _ _ _)
  | @saveFailed request hkind hphase fin hend =>
      simp only [List.mem_cons, reduceCtorEq, false_or] at hmem
      cases hend with
      | completion hcompletion hend =>
          cases hend with
          | recheck _ _ houtcome => simp at hmem
          | failed _ _ _ houtcome => simp at hmem
          | completed payloads metadata houtcome =>
              rw [completionOutcome_completed_iff] at houtcome
              simp at houtcome
      | answered _ _ => simp at hmem
      | drained _ _ => exact absurd hmem (startWaitingCompletion_mailless _ _ _)
  | flushed | errorNoted | errorReported | status | ignored => simp at hmem

/-! ## The result -/

/-- The `completed` event at `k` was fenced: a finished alert triggered the completion at `c`,
    for the files `desired`; then a flush was issued and answered, then the resume data were
    asked for and answered, with no error alert while that round was pending, and no other
    round began before the event. -/
def CompletionFenced (log : List Entry) (id : String) (h : Handle) (desired : List Int)
    (k : Nat) : Prop :=
  ∃ t c b f q r data, t < c ∧ c < b ∧ b + 1 < f ∧ f < q ∧ q < r ∧ r < k ∧
    At log t (.alert (some id) ⟨h, .torrentFinished⟩) ∧ At log c (.completing id h desired) ∧
    (∀ u e, c < u → u < k → At log u e → ¬ IsCompleting id e) ∧
    At log (b + 1) (.command (.flushCache h)) ∧ At log f (.accepted id ⟨h, .cacheFlushed (b + 1)⟩) ∧
    At log q (.command (.saveResumeData h)) ∧ At log r (.accepted id ⟨h, .saveResumeData q data⟩) ∧
    At log b (.began id h true true) ∧ (∀ u e, b < u → u < k → At log u e → ¬ IsBegan id e) ∧
    ∀ u e, b < u → u < r → At log u e → ¬ IsErrorFor id e

/-- The next event submitted for `id` after the one at `k` is `stoppedAfterCompletion`. -/
def StopsNext (log : List Entry) (id : String) (k : Nat) : Prop :=
  ∃ m, k < m ∧ At log m (.mail (.submit id .stopped (stoppedAfterCompletionJson id))) ∧
    ∀ u kind json, k < u → u < m → ¬ At log u (.mail (.submit id kind json))

/-- A completion that is fenced and whose save has just been answered. -/
theorem RoundInv.completionFenced {log : List Entry} {id : String} {value : Job} {alert : Alert}
    {request : Nat} {data : Bytes} (hr : value.RoundOk True log id)
    (hcompletion : value.CompletionOk log id) (hphase : value.checkpoint.barrier.phase = .saving)
    (hflag : value.completionCheckpoint = true) (herror : value.checkpoint.error = .ok)
    (hkind : alert.kind = .saveResumeData request data) (hhandle : value.handle = alert.handle)
    (hlog : HonestReplies (log ++ [.alert (some id) alert])) :
    CompletionFenced (log ++ [.alert (some id) alert, .accepted id alert]) id value.handle
      value.desiredFiles (log.length + 2) := by
  obtain ⟨flush, b, q, hq⟩ := RoundInv.saving hr hphase
  obtain ⟨c, b', htriggered, hfenced⟩ := hcompletion.fenced hflag
  obtain ⟨t, htc, hfinished⟩ := htriggered.finished
  -- the fence of the completion is the present round
  have hlatest : Latest (IsBegan id) log b := ⟨⟨_, hq.round.began, _, _, _, rfl⟩, hq.round.latest⟩
  have hlatest' : Latest (IsBegan id) log b' :=
    ⟨⟨_, hfenced.began, _, _, _, rfl⟩, hfenced.latest⟩
  obtain rfl := hlatest.unique hlatest'
  have hflush : flush = true := by
    have heq := hq.round.began.unique hfenced.began
    injection heq
  subst hflush
  obtain ⟨f, flushed, r, hbf, hfq, hat, hfh, hfk, hfr⟩ := hq.issued.fenced rfl
  obtain rfl := hfr trivial
  have hrequest : request = q := by
    have hreq : alert.kind.request = some request := by rw [hkind]; rfl
    exact (hq.only trivial request).mp (hhandle ▸ (hlog.open_of_reply hreq).1)
  subst hrequest
  have hflushed : flushed = ⟨value.handle, .cacheFlushed (b + 1)⟩ := by
    rw [← hfh, ← hfk]
  have halert : alert = ⟨value.handle, .saveResumeData request data⟩ := by
    rw [hhandle, ← hkind]
  have hbf' : b + 1 < f := by
    rcases Nat.lt_or_ge (b + 1) f with h | h
    · exact h
    · obtain rfl : f = b + 1 := by omega
      cases hat.unique hq.round.first
  have hnew : ∀ u e, At [Entry.alert (some id) alert, .accepted id alert] u e →
      ¬ IsCompleting id e ∧ ¬ IsBegan id e ∧ ¬ IsErrorFor id e := by
    intro u e he
    have hmem := he.mem
    simp only [List.mem_cons, List.not_mem_nil, or_false] at hmem
    rcases hmem with rfl | rfl
    · refine ⟨not_trigger_alert.1, not_trigger_alert.2, ?_⟩
      rintro ⟨_, heq, herr⟩
      cases heq
      simp [hkind, AlertKind.isError] at herr
    · exact ⟨(by rintro ⟨_, _, heq⟩; cases heq), (by rintro ⟨_, _, _, heq⟩; cases heq),
        (by rintro ⟨_, heq, _⟩; cases heq)⟩
  have hqlt := hq.issued.request.lt
  refine ⟨t, c, b, f, request, log.length + 1, data, htc, hfenced.after, hbf', hfq, by omega,
    by omega, hfinished.append _, htriggered.started.append _, fun u e hu _ he => ?_,
    hq.round.first.append _, hflushed ▸ hat.append _, hq.issued.request.append _, ?_,
    hfenced.began.append _, fun u e hu _ he => ?_, fun u e hu _ he => ?_⟩
  · rcases at_append.mp he with he | ⟨_, he⟩
    · exact htriggered.latest u e hu he
    · exact (hnew _ e he).1
  · rw [← halert]
    simp [At]
  · rcases at_append.mp he with he | ⟨_, he⟩
    · exact hfenced.latest u e hu he
    · exact (hnew _ e he).2.1
  · rcases at_append.mp he with he | ⟨_, he⟩
    · exact hq.clean herror u e hu he
    · exact (hnew _ e he).2.2

theorem CompletionFenced.append {log : List Entry} {id : String} {h : Handle} {desired : List Int}
    {k : Nat} (hf : CompletionFenced log id h desired k) (hk : k ≤ log.length)
    (new : List Entry) : CompletionFenced (log ++ new) id h desired k := by
  obtain ⟨t, c, b, f, q, r, data, htc, hcb, hbf, hfq, hqr, hrk, ht, hc, hcq, hb1, hfat, hq, hr, hb,
    hbq, herr⟩ := hf
  have hold : ∀ {u e}, u < k → At (log ++ new) u e → At log u e := by
    intro u e hu he
    rcases at_append.mp he with he | ⟨hle, _⟩
    · exact he
    · omega
  exact ⟨t, c, b, f, q, r, data, htc, hcb, hbf, hfq, hqr, hrk, ht.append new, hc.append new,
    fun u e hu huk he => hcq u e hu huk (hold huk he), hb1.append new, hfat.append new,
    hq.append new, hr.append new, hb.append new,
    fun u e hu huk he => hbq u e hu huk (hold huk he),
    fun u e hu hur he => herr u e hu hur (hold (hur.trans hrk) he)⟩

namespace World

theorem fair_before {w w' : World} {l : Step} (hc : w.Callers) (h : w.step l = some w')
    (hf : Fair w'.session) : Fair w.session := by
  have hgrows : ∀ {s s'}, Relation.ReflTransGen Micro s s' → Grows s s' := by
    intro s s' hm
    induction hm with
    | refl => exact Grows.refl s
    | tail _ hm ih => exact ih.trans hm.grows
  exact hf.of_grows (hgrows (step_micro hc h))

/-- **Completion safety.** In every run of a session that is not shutting down, with an engine
    that answers only what it was asked: a step that submits a `completed` event is an alert
    that finds all desired files of the job verified; the completion was fenced, with the files
    that were desired when it was triggered; and the next event of the job is
    `stoppedAfterCompletion`. Since the torrent was added, at most one verdict has been
    submitted for it, `completed` or code 16, after at most two fences. -/
theorem completion_safe {ls : List Step} {l : Step} {w w' : World}
    (hrun : Lts.exec step {} ls = some w) (hstep : w.step l = some w')
    (hhonest : HonestReplies w'.session.trace) (hfresh : FreshHandles w'.session.trace)
    (hrunning : w'.session.shuttingDown = false) :
    (∀ id k json, w.session.trace.length ≤ k →
      At w'.session.trace k (.mail (.submit id .completed json)) →
      ∃ env alert value, l = .alert env alert ∧ w.session.jobs.lookup id = some value ∧
        FilesVerified env value.handle value.desiredFiles ∧
        CompletionFenced w'.session.trace id value.handle value.desiredFiles k ∧
        StopsNext w'.session.trace id k) ∧
    ∀ id, verdicts id w'.session.trace ≤ 1 ∧ fences id w'.session.trace ≤ 2 := by
  obtain ⟨hslots, hcallers⟩ := run_callers hrun
  have hfair : Fair w.session := fair_before hcallers hstep ⟨hhonest, hfresh, hrunning⟩
  have hrounds : Rounds True w.session := rounds_of_run hrun fun _ => hfair
  have hcompletions := completions_of_run hrun
  have hafter := completions_of_run (Lts.exec_snoc_eq_some.mpr ⟨w, hrun, hstep⟩)
  refine ⟨fun id k json hk hat => ?_, fun id => (hafter id).bound⟩
  have hquiet : ¬ w.session.Calm w'.session := by
    rintro ⟨new, htrace, hnew⟩
    rw [htrace] at hat
    rcases at_append.mp hat with hat | ⟨_, hat⟩
    · have := hat.lt
      omega
    · exact hnew _ hat.mem id json rfl
  obtain ⟨env, alert, rfl⟩ := (step_calm hcallers hstep).resolve_right hquiet
  simp only [World.step, Option.ite_none_left_eq_some, Option.map_eq_some_iff] at hstep
  obtain ⟨_, s, hh, rfl⟩ := hstep
  rcases handleAlert_cases hh with rfl | ⟨i, value, hvalue, hhandle, _, hupdate⟩
  · exact absurd ⟨[.alert none alert], rfl, by simp⟩ hquiet
  · obtain ⟨new, hu⟩ := update_spec hupdate
    have htrace : s.trace = (w.session.trace ++ [.alert (some i) alert]) ++ new := hu.trace
    -- the event was among the actions, so it is the job's own
    have hmem : Entry.mail (.submit id .completed json) ∈ new := by
      have hat' : At (w.session.trace ++ ([.alert (some i) alert] ++ new)) k
          (.mail (.submit id .completed json)) := by
        have := hat
        simp only [htrace, List.append_assoc] at this
        exact this
      rcases at_append.mp hat' with hold | ⟨_, hat'⟩
      · have := hold.lt
        omega
      · simpa using hat'.mem
    obtain ⟨a, ha, hae⟩ := (emits_mem hu.emits hmem).resolve_right (by simp)
    obtain ⟨rfl, rfl⟩ : a = .enqueue .completed json ∧ i = id := by
      cases a <;> simp [actionEntry] at hae
      exact ⟨by rw [hae.2.1, hae.2.2], hae.1⟩
    obtain ⟨⟨request, data, hkind⟩, hphase, hflag, herror, hverified, status, hactions⟩ :=
      (onAlert_end env i value alert).completed_cases ha
    have hemits := hu.emits
    rw [hactions] at hemits
    obtain ⟨rest, rfl, hrest⟩ := emits_cons (by simp [Exact]) rfl hemits
    obtain ⟨rest₁, rfl, hrest₁⟩ := emits_cons (by simp [Exact]) rfl hrest
    obtain ⟨rest₂, rfl, hrest₂⟩ := emits_cons (by simp [Exact]) rfl hrest₁
    obtain ⟨rest₃, rfl, hnil⟩ := emits_cons (by simp [Exact]) rfl hrest₂
    obtain rfl : rest₃ = [] := hnil
    have hsplit : s.trace = (w.session.trace ++ [.alert (some i) alert, .accepted i alert]) ++
        [.mail (.submit i .completed status), .command (.removeTorrent value.handle false),
          .mail (.submit i .stopped (stoppedAfterCompletionJson i))] := by
      rw [htrace]
      simp
    have hlog : HonestReplies (w.session.trace ++ [.alert (some i) alert]) :=
      hhonest.anti ⟨_, htrace.symm⟩
    have hfenced := RoundInv.completionFenced (hrounds.round i value hvalue)
      ((hcompletions i).ok value hvalue) hphase hflag herror hkind hhandle hlog
    have hnth : ∀ j, (s.trace)[w.session.trace.length + j]? =
        [Entry.alert (some i) alert, .accepted i alert, .mail (.submit i .completed status),
          .command (.removeTorrent value.handle false),
          .mail (.submit i .stopped (stoppedAfterCompletionJson i))][j]? := by
      intro j
      rw [htrace, List.append_assoc, List.getElem?_append_right (Nat.le_add_right _ _),
        Nat.add_sub_cancel_left]
      rfl
    obtain ⟨j, rfl⟩ : ∃ j, k = w.session.trace.length + j := ⟨k - w.session.trace.length, by omega⟩
    have hj : j = 2 := by
      have hat' : (s.trace)[w.session.trace.length + j]? =
        some (.mail (.submit i .completed json)) := hat
      rw [hnth j] at hat'
      rcases j with _ | _ | _ | _ | _ | n
      · cases hat'
      · cases hat'
      · rfl
      · cases hat'
      · cases hat'
      · cases hat'
    subst hj
    refine ⟨env, alert, value, rfl, hvalue, hverified, ?_, w.session.trace.length + 4, by omega,
      hnth 4, fun u kind j hu hu' he => ?_⟩
    · show CompletionFenced s.trace i value.handle value.desiredFiles _
      rw [hsplit]
      exact hfenced.append (by simp) _
    · obtain rfl : u = w.session.trace.length + 3 := by omega
      cases (hnth 3).symm.trans he

/-- A torrent that completes, up to the reply to its save. -/
def completingRun : List Step :=
  [.call sampleEnvironment 0 (.add sampleRequest),
    .alert sampleEnvironment ⟨1, .torrentFinished⟩,
    .alert sampleEnvironment ⟨1, .cacheFlushed 9⟩]

def completedRun : List Step :=
  completingRun ++ [.alert sampleEnvironment ⟨1, .saveResumeData 12 [7]⟩]

theorem completedRun_completes :
    CompletionFenced (after completedRun).session.trace "a" 1 [0] 15 ∧
      StopsNext (after completedRun).session.trace "a" 15 ∧
      verdicts "a" (after completedRun).session.trace ≤ 1 := by
  have hdone := @exec_after completedRun (by decide +kernel)
  obtain ⟨w, hw, hstep⟩ := Lts.exec_snoc_eq_some.mp hdone
  obtain rfl : after completingRun = w :=
    Option.some.inj ((exec_after (by decide +kernel)).symm.trans hw)
  have hsafe := completion_safe hw hstep (honestReplies_of_check (by decide +kernel))
    (freshHandles_of_check (by decide +kernel)) (by decide +kernel)
  have hat : (after completedRun).session.trace[15]? = some (.mail (.submit "a" .completed
      (completedJson "a" (sampleEnvironment.status 1)))) := by decide +kernel
  have hjob : ((after completingRun).session.jobs.lookup "a").map
      (fun value => (value.handle, value.desiredFiles)) = some (1, [0]) := by decide +kernel
  obtain ⟨env, alert, value, _, hvalue, _, hfenced, hstops⟩ :=
    hsafe.1 "a" 15 _ (by decide +kernel) hat
  rw [hvalue, Option.map_some, Option.some.injEq, Prod.mk.injEq] at hjob
  rw [hjob.1, hjob.2] at hfenced
  exact ⟨hfenced, hstops, (hsafe.2 "a").1⟩

end World

end LibtorrentKit
