/-
  The snapshot of a completed torrent.

  A completion keeps the last status, the metadata and the resume data of its torrent in the
  job, and `ltkit_session_status`, `…_metadata` and `…_checkpoint` answer from there. `Job.Holds`
  is what the job then holds: no alert and no call changes it before the job is removed
  (`step_holds`), and while it is there the three calls answer with it and the calls that
  control the torrent are refused (`World.Serves`). `snapshot_served` is the result.
-/
import LibtorrentKit.Session.CompletionSafety

namespace LibtorrentKit

open History Session

/-- What a completion keeps of its torrent. -/
structure Snapshot where
  metadata : String
  status : TorrentStatus
  data : Bytes

/-- The job has ended with this snapshot. -/
structure Job.Holds (value : Job) (shot : Snapshot) : Prop extends value.Ended where
  metadata : value.finalMetadata = shot.metadata
  status : value.finalStatus = some shot.status
  data : value.finalResumeData = shot.data

/-- The snapshot can be told from one that is not there. -/
structure Snapshot.Complete (shot : Snapshot) : Prop where
  metadata : shot.metadata ≠ ""
  data : shot.data ≠ []

/-- The text of a status that is stopped, with zero rates and peers, outside the swarm. -/
def stoppedStatusJson (status : TorrentStatus) : String :=
  "\x7b\"state\":\"" ++ "stopped" ++ "\""
    ++ ",\"progress\":" ++ progressText status.progressPpm
    ++ ",\"totalBytes\":" ++ toString status.totalWanted
    ++ ",\"completedBytes\":" ++ toString status.totalWantedDone
    ++ ",\"downloadRate\":" ++ "0"
    ++ ",\"uploadRate\":" ++ "0"
    ++ ",\"connectedPeers\":" ++ "0"
    ++ ",\"isPaused\":" ++ "true"
    ++ ",\"hasMetadata\":" ++ boolText status.hasMetadata
    ++ ",\"isParticipatingInSwarm\":" ++ "false" ++ "\x7d"

/-- The calls that control the torrent of `id`: start, pause, selection, priorities, window. -/
def Api.controls (id : String) : Api → Bool
  | .selectFiles i _ _ => decide (i = id)
  | .setFilePriority i _ _ => decide (i = id)
  | .setPiecePriority i _ _ => decide (i = id)
  | .start i => decide (i = id)
  | .pause i => decide (i = id)
  | .updateStreamingWindow i _ _ _ _ _ _ => decide (i = id)
  | .clearStreamingWindow i => decide (i = id)
  | _ => false

/-- The call returns at once with `response`, and leaves the jobs, the mailbox and libtorrent
    as they are: at most the text of the last error changes. -/
def World.Answers (w : World) (env : Environment) (c : CallId) (api : Api) (response : Response) :
    Prop :=
  ∃ lastError, w.step (.call env c api) =
    some (w.returned c api ({ w.session.record (.called c api) with lastError }, response))

/-- The session answers from the snapshot, and refuses to control the torrent. -/
structure World.Serves (w : World) (id : String) (shot : Snapshot) : Prop where
  metadata : ∀ env c timeoutMs, w.calls c = none → w.session.iteratedBy env = true →
    env.malloc = true → 0 ≤ timeoutMs →
    w.Answers env c (.metadata id timeoutMs) ⟨.ok, .text shot.metadata⟩
  status : ∀ env c, w.calls c = none → w.session.iteratedBy env = true → env.malloc = true →
    w.Answers env c (.status id) ⟨.ok, .text (stoppedStatusJson shot.status)⟩
  checkpoint : ∀ env c timeoutMs, w.calls c = none → w.session.iteratedBy env = true →
    env.malloc = true → 0 < timeoutMs →
    w.Answers env c (.checkpoint id false timeoutMs) ⟨.ok, .bytes shot.data⟩
  refused : ∀ env c api, w.calls c = none → w.session.iteratedBy env = true →
    api.controls id = true → ∃ code, code ≠ .ok ∧ w.Answers env c api ⟨code, .none⟩

/-- The step is a call that removes the job of `id`. -/
def Step.Removes (id : String) (l : Step) : Prop :=
  ∃ env c deleteFiles, l = .call env c (.remove id deleteFiles)

/-- `write_resume_data_buf` does not return an empty buffer. -/
def Step.WritesData (l : Step) : Prop :=
  ∀ env handle request data, l = .alert env ⟨handle, .saveResumeData request data⟩ → data ≠ []

/-! ## The snapshot is taken -/

/-- A completion that ends well leaves a snapshot with everything in it. -/
theorem finishCompletion_holds {env : Environment} {id json : String} {value : Job}
    {success : Bool} (hwaiting : value.completionWaiting = false)
    (hdata : value.checkpoint.data ≠ [])
    (hmem : Action.enqueue .completed json ∈ (finishCompletion env id value success).2) :
    ∃ shot, (finishCompletion env id value success).1.Holds shot ∧ shot.Complete := by
  obtain ⟨payloads, metadata, hread⟩ := completionJob_eq env value success
  unfold finishCompletion at hmem ⊢
  cases houtcome : completionOutcome env value success with
  | recheck => simp [houtcome, startCheckpoint] at hmem
  | failed failure => simp [houtcome] at hmem
  | completed =>
      dsimp only
      refine ⟨⟨(completionJob env value success).finalMetadata, env.status value.handle,
        value.checkpoint.data⟩, ⟨⟨rfl, ?_, rfl⟩, rfl, rfl, rfl⟩, ?_, hdata⟩
      · rw [hread]
        exact hwaiting
      · obtain ⟨hsuccess, hverified, hmetadata⟩ :=
          (completionOutcome_completed_iff env value success).mp houtcome
        show (completionJob env value success).finalMetadata ≠ ""
        simpa [completionJob, hsuccess, hverified] using hmetadata

/-- The alert that submits the `completed` event leaves a snapshot. -/
theorem onAlert_holds {env : Environment} {id json : String} {value : Job} {alert : Alert}
    (hok : value.SlotOk) (hdata : (Step.alert env alert).WritesData)
    (hmem : Action.enqueue .completed json ∈ (onAlert env id value alert).2) :
    ∃ shot, (onAlert env id value alert).1.Holds shot ∧ shot.Complete := by
  obtain ⟨⟨request, data, hkind⟩, hphase, hcompletion, _⟩ :=
    (onAlert_end env id value alert).completed_cases hmem
  have hwaiting : value.completionWaiting = false := by
    by_contra hw
    exact hok.exclusive ⟨by simpa using hw, hcompletion⟩
  have hnonempty : data ≠ [] := hdata env alert.handle request data (by rw [← hkind])
  simp only [onAlert, hkind, DiskCheckpoint.resumeSaved, hphase, ne_eq, not_true_eq_false,
    if_false, if_true, finishCheckpoint, hcompletion, List.mem_cons, reduceCtorEq, false_or]
    at hmem ⊢
  exact finishCompletion_holds hwaiting hnonempty hmem

/-! ## The snapshot is kept -/

theorem Job.Holds.of_same {value value' : Job} {shot : Snapshot} (h : value.Holds shot)
    (hended : value'.Ended) (hsame : value.SameFinal value') : value'.Holds shot :=
  ⟨hended, hsame.1.trans h.metadata, hsame.2.1.trans h.status, hsame.2.2.trans h.data⟩

/-- No alert changes what is cached in a job that has ended. -/
theorem AlertEnd.sameFinal {env : Environment} {id : String} {value : Job} {alert : Alert}
    {worked : Job × List Action} (h : AlertEnd env id value alert worked) (hended : value.Ended) :
    value.SameFinal worked.1 := by
  have hfinish : ∀ {phase data success} (worked : Job × List Action),
      FinishEnd env id (value.withReply phase data) success worked → value.SameFinal worked.1 := by
    intro phase data success worked hend
    cases hend with
    | completion hcompletion _ =>
        have hopen : value.completionCheckpoint = true := hcompletion
        rw [hended.completion] at hopen
        cases hopen
    | answered _ _ => exact ⟨rfl, rfl, rfl⟩
    | drained _ _ =>
        exact startWaitingCompletion_sameFinal { value.withReply phase data with checkpoint := {} }
  cases h with
  | metadata hkind hselects htuning => exact hselects.sameFinal
  | rejected hkind hselects htuning => exact hselects.sameFinal
  | completing hkind hcompletes hworked =>
      simp [completes, hended.stopped] at hcompletes
  | @saved request data hkind hphase worked hend => exact hfinish worked hend
  | @saveFailed request hkind hphase worked hend => exact hfinish worked hend
  | flushed | errorNoted | errorReported | status | ignored => exact ⟨rfl, rfl, rfl⟩

/-- The session has the job of `id` with this snapshot. -/
def Session.HoldsAt (s : Session) (id : String) (shot : Snapshot) : Prop :=
  ∃ value, s.jobs.lookup id = some value ∧ value.Holds shot

section

variable {s s' : Session} {id : String} {shot : Snapshot}

theorem Session.HoldsAt.same (h : s.HoldsAt id shot) (hjobs : s'.jobs = s.jobs) :
    s'.HoldsAt id shot := by
  unfold HoldsAt
  rw [hjobs]
  exact h

/-- One job is replaced, by one that holds the snapshot if it is that of `id`. -/
theorem Session.HoldsAt.insert (h : s.HoldsAt id shot) {i : String} {value' : Job}
    (hjobs : s'.jobs = s.jobs.insert i value')
    (hvalue' : ∀ value, i = id → s.jobs.lookup id = some value → value.Holds shot →
      value'.Holds shot) : s'.HoldsAt id shot := by
  obtain ⟨value, hvalue, hholds⟩ := h
  unfold HoldsAt
  rw [hjobs]
  by_cases hi : i = id
  · refine ⟨value', ?_, hvalue' value hi hvalue hholds⟩
    rw [hi, Finmap.lookup_insert]
  · exact ⟨value, by rw [Finmap.lookup_insert_of_ne _ (Ne.symm hi), hvalue], hholds⟩

theorem Session.Moves.holdsAt {slot : String → Prop} (hm : Moves slot s s')
    (h : s.HoldsAt id shot) : s'.HoldsAt id shot := by
  induction hm with
  | refl => exact h
  | tail _ hmove ih =>
      cases hmove with
      | error e => exact ih.same rfl
      | wake => exact ih.same rfl
      | read env json hfront hpop => exact ih.same (popEvent_jobs hpop)
      | @work _ env i u worked hu hwork hupdate =>
          obtain ⟨new, hupd⟩ := update_spec hupdate
          refine ih.insert hupd.jobs fun value hi hvalue hholds => ?_
          subst hi
          obtain rfl := Option.some.inj (hvalue.symm.trans hu)
          exact hholds.of_same (hwork.ended hholds.toEnded) hwork.sameFinal

theorem handleAlert_holdsAt {env : Environment} {alert : Alert}
    (ha : s.handleAlert env alert = some s') (h : s.HoldsAt id shot) : s'.HoldsAt id shot := by
  rcases handleAlert_cases ha with rfl | ⟨i, u, hu, _, _, hupdate⟩
  · exact h.same rfl
  · obtain ⟨new, hupd⟩ := update_spec hupdate
    refine h.insert hupd.jobs fun value hi hvalue hholds => ?_
    subst hi
    obtain rfl := Option.some.inj (hvalue.symm.trans hu)
    have hend := onAlert_end env i value alert
    exact hholds.of_same (hend.ended hholds.toEnded) (hend.sameFinal hholds.toEnded)

/-- Another job is added or removed. -/
theorem Session.HoldsAt.add {env : Environment} {r : AddRequest} {res : Session × Response}
    (h : s.HoldsAt id shot) (hadd : s.ltkitSessionAdd env r = some res) :
    res.1.HoldsAt id shot := by
  rcases add_inserts hadd with ⟨code, m, _, rfl⟩ | ⟨_, _, _, _, hfree, _, _, hinsert, _⟩
  · exact h.same rfl
  · refine h.insert (insertJob_spec hinsert).1 fun value hi hvalue _ => ?_
    rw [hi, ← Finmap.lookup_eq_none, hvalue] at hfree
    cases hfree

theorem Session.HoldsAt.remove {i : String} {deleteFiles : Bool} (h : s.HoldsAt id shot)
    (hi : i ≠ id) : (s.ltkitSessionRemove i deleteFiles).1.HoldsAt id shot := by
  unfold ltkitSessionRemove
  split
  · exact h
  · split
    · exact h.same rfl
    · obtain ⟨value, hvalue, hholds⟩ := h
      refine ⟨value, ?_, hholds⟩
      dsimp only
      rw [Finmap.lookup_erase_ne (Ne.symm hi)]
      split <;> exact hvalue

end

namespace World

variable {w w' : World} {id : String} {shot : Snapshot}

/-- Every step but the removal of the job keeps the snapshot. -/
theorem step_holds {l : Step} (hc : w.Callers) (hl : ¬ l.Removes id) (h : w.step l = some w')
    (hw : w.session.HoldsAt id shot) : w'.session.HoldsAt id shot := by
  cases l with
  | alert env alert =>
      simp only [step, Option.ite_none_left_eq_some, Option.map_eq_some_iff] at h
      obtain ⟨_, s, hs, rfl⟩ := h
      exact handleAlert_holdsAt hs hw
  | destroy =>
      obtain rfl := Option.some.inj h
      exact hw
  | call env c api =>
      simp only [step, Option.ite_none_left_eq_some, Option.map_eq_some_iff] at h
      obtain ⟨_, res, hres, rfl⟩ := h
      have hcalled : (w.session.record (.called c api)).HoldsAt id shot := hw
      have hdone : res.1.HoldsAt id shot := by
        cases api with
        | add request =>
            obtain ⟨r, hr, rfl⟩ := Option.map_eq_some_iff.mp hres
            exact hcalled.add hr
        | remove i deleteFiles =>
            obtain rfl := Option.some.inj hres
            refine hcalled.remove fun hi => hl ⟨env, c, deleteFiles, ?_⟩
            rw [hi]
        | _ => exact (enter_moves_inside (fun _ => True) (by simp) (by simp) (by simp)
            hres).holdsAt hcalled
      cases hr : res.2 with
      | some response => exact hdone
      | none => exact hdone
  | resume env c =>
      obtain ⟨wait, res, hwait, hres, rfl⟩ := step_resume h
      have hm := hc.resumed hwait hres
      exact hm.holdsAt hw

/-! ## The snapshot is served -/

theorem answers_of_enter {env : Environment} {c : CallId} {api : Api} {response : Response}
    (lastError : String) (hfree : w.calls c = none) (hiterated : w.session.iteratedBy env = true)
    (henter : (w.session.record (.called c api)).enter env api =
      some ({ w.session.record (.called c api) with lastError }, some response)) :
    w.Answers env c api response := by
  refine ⟨lastError, ?_⟩
  simp only [step, hfree, hiterated, henter, Option.isSome_none, Bool.not_true, Bool.or_self,
    Bool.false_eq_true, if_false, Option.map_some]

theorem reply_malloc (s : Session) {env : Environment} (m : String) (output : Output)
    (hmalloc : env.malloc = true) : s.reply env m (.ok output) = (s, ⟨.ok, output⟩) := by
  simp [reply, copyBuffer, hmalloc]

theorem onActive_stopped {s : Session} {env : Environment} {m : String} {value : Job}
    {body : Job → Job × List Action × Reply} (hvalue : s.jobs.lookup id = some value)
    (hstopped : value.stopped = true) : s.onActive env id m body = some s.notActive := by
  simp [onActive, hvalue, hstopped]

theorem statusJson_stopped (status : TorrentStatus) :
    statusJson status true = stoppedStatusJson status := by
  unfold statusJson stoppedStatusJson
  simp only [stateName, if_true, Bool.true_or, Bool.not_true, Bool.false_and, boolText,
    Bool.false_eq_true, if_false]
  rw [show toString (0 : Int) = "0" from rfl]

/-- A call that controls a stopped torrent is refused, and changes at most the last error. -/
theorem enter_controls {s : Session} {env : Environment} {api : Api} {value : Job}
    (hvalue : s.jobs.lookup id = some value) (hstopped : value.stopped = true)
    (hcontrols : api.controls id = true) :
    ∃ code lastError, code ≠ Code.ok ∧
      s.enter env api = some ({ s with lastError }, some { code }) := by
  have hactive : ∀ m body, s.onActive env id m body = some s.notActive :=
    fun m body => onActive_stopped hvalue hstopped
  have hrefused : ∀ {p : Prop} [Decidable p] {m : String}
      {body : Job → Job × List Action × Reply}, ∃ code lastError, code ≠ Code.ok ∧
        (if p then some (s, ({ code := .invalidArgument } : Response))
          else s.onActive env id m body).map returning =
            some ({ s with lastError }, some { code }) := by
    intro p _ m body
    by_cases hp : p
    · refine ⟨.invalidArgument, s.lastError, by decide, ?_⟩
      rw [if_pos hp]
      rfl
    · refine ⟨.invalidIdentifier, "The torrent identifier is not active.", by decide, ?_⟩
      rw [if_neg hp, hactive]
      rfl
  have hplain : ∀ {m : String} {body : Job → Job × List Action × Reply},
      ∃ code lastError, code ≠ Code.ok ∧ (s.onActive env id m body).map returning =
        some ({ s with lastError }, some { code }) := by
    intro m body
    refine ⟨.invalidIdentifier, "The torrent identifier is not active.", by decide, ?_⟩
    rw [hactive]
    rfl
  cases api <;> simp only [Api.controls, decide_eq_true_eq, Bool.false_eq_true] at hcontrols <;>
    subst hcontrols <;> first | exact hrefused | exact hplain

/-- A session that holds the snapshot of a job serves it. -/
theorem serves_of_holds (hw : w.session.HoldsAt id shot) (hcomplete : shot.Complete) :
    w.Serves id shot := by
  obtain ⟨value, hvalue, hholds⟩ := hw
  have hlookup : ∀ e, (w.session.record e).jobs.lookup id = some value := fun _ => hvalue
  constructor
  · intro env c timeoutMs hfree hiterated hmalloc htimeout
    refine answers_of_enter w.session.lastError hfree hiterated ?_
    show Session.ltkitSessionMetadata _ _ _ _ = _
    unfold ltkitSessionMetadata
    rw [if_neg (by omega)]
    simp only [hlookup, hholds.stopped, ne_eq, hcomplete.metadata, not_false_eq_true, decide_true,
      Bool.and_self, if_true, reply_malloc _ _ _ hmalloc, hholds.metadata]
    rfl
  · intro env c hfree hiterated hmalloc
    refine answers_of_enter w.session.lastError hfree hiterated ?_
    show some (returning (Session.ltkitSessionStatus _ _ _)) = _
    unfold ltkitSessionStatus
    simp only [hlookup, hholds.stopped, if_true, hholds.status, Option.getD_some,
      reply_malloc _ _ _ hmalloc, statusJson_stopped]
    rfl
  · intro env c timeoutMs hfree hiterated hmalloc htimeout
    refine answers_of_enter w.session.lastError hfree hiterated ?_
    show Session.ltkitSessionCheckpoint _ _ _ _ _ = _
    unfold ltkitSessionCheckpoint
    rw [if_neg (by omega)]
    simp only [hlookup, hholds.stopped, ne_eq, hcomplete.data, not_false_eq_true, decide_true,
      Bool.and_self, if_true, Bool.false_and, Bool.false_eq_true, if_false,
      reply_malloc _ _ _ hmalloc, hholds.data]
    rfl
  · intro env c api hfree hiterated hcontrols
    obtain ⟨code, lastError, hcode, henter⟩ :=
      enter_controls (hlookup (.called c api)) hholds.stopped hcontrols
    exact ⟨code, hcode, answers_of_enter lastError hfree hiterated henter⟩

/-- The step that submits a `completed` event leaves the job with a snapshot. -/
theorem step_completed {ls : List Step} {l : Step} {k : Nat} {json : String}
    (hrun : Lts.exec step {} ls = some w) (h : w.step l = some w') (hdata : l.WritesData)
    (hk : w.session.trace.length ≤ k)
    (hat : At w'.session.trace k (.mail (.submit id .completed json))) :
    ∃ shot, w'.session.HoldsAt id shot ∧ shot.Complete := by
  obtain ⟨hs, hc⟩ := run_callers hrun
  rcases step_calm hc h with ⟨env, alert, rfl⟩ | ⟨new, htrace, hnew⟩
  · simp only [step, Option.ite_none_left_eq_some, Option.map_eq_some_iff] at h
    obtain ⟨_, s, hs', rfl⟩ := h
    rcases handleAlert_cases hs' with rfl | ⟨i, value, hvalue, _, _, hupdate⟩
    · rcases at_append.mp hat with hat | ⟨_, hat⟩
      · have := hat.lt
        omega
      · cases List.mem_singleton.mp hat.mem
    · obtain ⟨new, hu⟩ := update_spec hupdate
      have hmem : Entry.mail (.submit id .completed json) ∈ new := by
        rw [hu.trace, record_trace, List.append_assoc] at hat
        rcases at_append.mp hat with hat | ⟨_, hat⟩
        · have := hat.lt
          omega
        · rcases List.mem_cons.mp hat.mem with heq | hmem
          · cases heq
          · exact hmem
      rcases emits_mem hu.emits hmem with ⟨a, ha, hae⟩ | ⟨_, _, heq⟩
      · cases a <;> simp only [actionEntry, Option.some.injEq, reduceCtorEq, Entry.mail.injEq,
          KeyedFifo.Op.submit.injEq] at hae
        obtain ⟨rfl, rfl, rfl⟩ := hae
        obtain ⟨shot, hholds, hcomplete⟩ := onAlert_holds (hs i value hvalue) hdata ha
        refine ⟨shot, ⟨_, ?_, hholds⟩, hcomplete⟩
        rw [hu.jobs, Finmap.lookup_insert]
      · cases heq
  · rw [htrace] at hat
    rcases at_append.mp hat with hat | ⟨_, hat⟩
    · have := hat.lt
      omega
    · exact absurd rfl (hnew _ hat.mem id json)

/-- **The completion snapshot is complete and stable.** In every run, from the step that
    submits the `completed` event of a torrent on and until the torrent is removed, whatever
    calls and alerts come in between: metadata, status and checkpoint without flush answer with
    the same bytes, and every call that controls the torrent is refused without effect. -/
theorem snapshot_served {ls : List Step} {l : Step} {k : Nat} {json : String}
    (hrun : Lts.exec step {} ls = some w) (h : w.step l = some w') (hdata : l.WritesData)
    (hk : w.session.trace.length ≤ k)
    (hat : At w'.session.trace k (.mail (.submit id .completed json))) :
    ∃ shot, ∀ rest u, Lts.exec step w' rest = some u → (∀ l ∈ rest, ¬ l.Removes id) →
      u.Serves id shot := by
  obtain ⟨shot, hholds, hcomplete⟩ := step_completed hrun h hdata hk hat
  refine ⟨shot, fun rest u hrest hkept => serves_of_holds ?_ hcomplete⟩
  have hrun' : Lts.exec step {} (ls ++ [l]) = some w' := Lts.exec_snoc_eq_some.mpr ⟨w, hrun, h⟩
  induction rest using List.reverseRecOn generalizing u with
  | nil =>
      obtain rfl := Option.some.inj hrest
      exact hholds
  | append_singleton rest l' ih =>
      obtain ⟨v, hv, hvu⟩ := Lts.exec_snoc_eq_some.mp hrest
      have hall : Lts.exec step {} (ls ++ [l] ++ rest) = some v := by
        rw [Lts.exec_append, hrun', Option.bind_some, hv]
      exact step_holds (run_callers hall).2
        (hkept l' (List.mem_append_right _ List.mem_cons_self)) hvu
        (ih v hv fun x hx => hkept x (List.mem_append_left _ hx))

/-- Alerts for the old handle of a completed torrent, and an attempt to start it again. -/
def lateRun : List Step :=
  [.alert sampleEnvironment ⟨1, .metadataReceived⟩,
    .alert sampleEnvironment ⟨1, .torrentError⟩,
    .call sampleEnvironment 0 (.start "a"),
    .alert sampleEnvironment ⟨1, .stateChanged⟩]

theorem lateRun_served : ∃ shot u, Lts.exec step (after completedRun) lateRun = some u ∧
    u.Serves "a" shot := by
  have hdone := @exec_after completedRun (by decide +kernel)
  obtain ⟨w, hw, hstep⟩ := Lts.exec_snoc_eq_some.mp hdone
  obtain rfl : after completingRun = w :=
    Option.some.inj ((exec_after (by decide +kernel)).symm.trans hw)
  have hdata : (Step.alert sampleEnvironment ⟨1, .saveResumeData 12 [7]⟩).WritesData := by
    intro env handle request data heq
    simp only [Step.alert.injEq, Alert.mk.injEq, AlertKind.saveResumeData.injEq] at heq
    simp [← heq.2.2.2]
  obtain ⟨shot, hserved⟩ := snapshot_served hw hstep hdata
    (show (after completingRun).session.trace.length ≤ 15 by decide +kernel)
    (show (after completedRun).session.trace[15]? = some (.mail (.submit "a" .completed
      (completedJson "a" (sampleEnvironment.status 1)))) by decide +kernel)
  have hlate : (Lts.exec step (after completedRun) lateRun).isSome = true := by decide +kernel
  obtain ⟨u, hu⟩ := Option.isSome_iff_exists.mp hlate
  refine ⟨shot, u, hu, hserved lateRun u hu ?_⟩
  rintro l hl ⟨env, c, deleteFiles, rfl⟩
  simp [lateRun] at hl

end World

end LibtorrentKit
