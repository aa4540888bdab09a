/-
  What `next_event` returns for a job, against what was enqueued for it.

  `World.Delivered` is the delivery contract. It holds along a run exactly when no step mixes
  up the two error codes of a job (`payloads_delivered_iff`); `mixedRun` is a run that does.
-/
import LibtorrentKit.Session.Mail

namespace LibtorrentKit

open Session

/-! ## Steps that keep the mailbox faithful -/

namespace Session

theorem Delivers.record {s : Session} (h : s.Delivers) {e : Entry} (hmail : e.mail? = none)
    (hmerged : ∀ id stored json, e ≠ .merged id stored json) : (s.record e).Delivers :=
  h.same [e] rfl rfl (by simpa using hmail) (by simpa using hmerged) fun _ _ h => h

theorem Delivers.retire {s : Session} (h : s.Delivers) (id : String) :
    Delivers { s with events := s.events.retire id, jobs := s.jobs.erase id } := by
  obtain ⟨f, hf, hr⟩ := h.refines
  refine ⟨h.wellFormed.retire id, ⟨f, hf, hr.retire id⟩, h.agree,
    (h.unread.retire id).mono fun i json hj => hj.imp_right fun hall v hv => hall v ?_⟩
  by_cases hi : i = id
  · subst hi
    simp at hv
  · rwa [Finmap.lookup_erase_ne hi] at hv

theorem Move.delivers {slot : String → Prop} {s s' : Session} (h : Move slot s s')
    (hd : s.Delivers) : s'.Delivers := by
  cases h with
  | error e => exact hd.same [] rfl (List.append_nil _).symm (by simp) (by simp) fun _ _ h => h
  | wake => exact hd.same [] rfl (List.append_nil _).symm (by simp) (by simp) fun _ _ h => h
  | read env json hfront hpop =>
      have hjobs := popEvent_jobs hpop
      unfold popEvent at hpop
      split at hpop
      · next events hp =>
          obtain rfl := Option.some.inj hpop
          obtain ⟨f, hf, hr⟩ := hd.refines
          cases hcrit : s.events.critical_ with
          | nil =>
              refine ⟨hd.wellFormed.pop hp, ⟨f, ?_, hr.pop_status hcrit hp⟩, ?_, hd.unread.pop hp⟩
              · simpa using hf
              · simpa using hd.agree
          | cons e rest =>
              obtain rfl : e.json = json := by simpa [EventMailbox.front, hcrit] using hfront
              refine ⟨hd.wellFormed.pop hp, ?_, ?_, hd.unread.pop hp⟩
              · simp only [List.head?_cons, Option.map_some, Option.toList_some, mails_append]
                exact MailboxTrace.refines_concat ⟨f, hf, hr⟩ fun g hg =>
                  hg.pop_critical hcrit hp
              · intro i stored j hmem
                refine hd.agree i stored j ?_
                simpa using hmem
      · cases hpop
  | work env id hvalue hwork hupdate =>
      exact hd.update hvalue hwork.ended (.none hwork.mailless.errorFree) hupdate

theorem Moves.delivers {slot : String → Prop} {s s' : Session} (h : Moves slot s s')
    (hd : s.Delivers) : s'.Delivers := by
  induction h with
  | refl => exact hd
  | tail _ hmove ih => exact hmove.delivers ih

theorem Delivers.entered {s : Session} {id : String} (hd : s.Delivers) (hid : id ∉ s.events.jobs_)
    (params : AddTorrentParams) (value : Job) : (s.entered id params value).Delivers := by
  refine ⟨hd.wellFormed.add _, ?_, ?_, (hd.unread.add hid).mono fun i json hj => ?_⟩
  · have hlog : mails (s.entered id params value).trace = mails s.trace ++ [.begin id] := by
      rw [entered_trace, mails_append]
      rfl
    rw [hlog]
    exact MailboxTrace.refines_concat hd.refines fun f hf => hf.add hd.wellFormed hid
  · intro i stored json hmem
    refine hd.agree i stored json ?_
    simpa using hmem
  · refine hj.2.imp_right fun hall v hv => hall v ?_
    rwa [entered_jobs, Finmap.lookup_insert_of_ne _ hj.1] at hv

theorem Life.delivers {s s' : Session} (h : Life s s') (hd : s.Delivers) : s'.Delivers := by
  cases h with
  | insert env r params desired handle hrunning hfree hcan hadd hinsert =>
      have hid : r.identifier ∉ s.events.jobs_ := by
        simp only [EventMailbox.canAdd, Bool.and_eq_true, decide_eq_true_eq] at hcan
        exact hcan.2
      have hbegin := hd.entered hid params (newJob env r params desired handle)
      rcases insertJob_cases hinsert with rfl | hperform
      · exact hbegin
      · exact hbegin.perform (by simp) hperform
  | remove id value deleteFiles hvalue hactive =>
      simp only [ltkitSessionRemove, hvalue, hactive, Bool.false_eq_true, if_false]
      split
      · exact hd.retire id
      · exact (hd.record (by rfl) (by simp)).retire id

theorem handleAlert_delivers {s s' : Session} {env : Environment} {alert : Alert}
    (h : s.handleAlert env alert = some s') (hs : s.Slots) (hd : s.Delivers)
    (hapart : ∀ job ∈ s.routed env alert, job.2.KeepsCodesApart env job.1 alert s.events) :
    s'.Delivers := by
  unfold handleAlert at h
  have hrecord : ∀ o, (s.record (.alert o alert)).Delivers := fun o => hd.record rfl (by simp)
  split at h
  · obtain rfl := Option.some.inj h
    exact hrecord none
  · next id value hrouted =>
      have hvalue := (routed_spec hrouted).1
      have hend := onAlert_end env id value alert
      exact (hrecord (some id)).update hvalue hend.ended
        (hend.reports (hs id value hvalue) (hapart (id, value) hrouted)) h

end Session

/-! ## Steps that mix the codes up -/

/-- An error that is submitted while another is unread leaves its mark in the trace. -/
theorem Session.performAll_merged {s s' : Session} {env : Environment} {id : String}
    {pre post : List Action} {json : String} {run : EventMailbox.Entry}
    (hpre : ∀ a ∈ pre, Silent a) (hrun : s.events.unreadError id = some run)
    (h : s.performAll env id (pre ++ .enqueue .error json :: post) = some s') :
    Entry.merged id run.json json ∈ s'.trace := by
  induction pre generalizing s with
  | nil =>
      rw [List.nil_append, performAll_cons, Option.bind_eq_some_iff] at h
      obtain ⟨t, ht, hrest⟩ := h
      obtain ⟨_, _, _, _, new, htrace, _⟩ := performAll_spec hrest
      rw [htrace]
      refine List.mem_append_left _ ?_
      simp only [perform, enqueue] at ht
      split at ht
      · obtain rfl := Option.some.inj ht
        simp [mergedEntry, hrun]
      · cases ht
  | cons a pre ih =>
      rw [List.cons_append, performAll_cons, Option.bind_eq_some_iff] at h
      obtain ⟨t, ht, hrest⟩ := h
      refine ih (fun b hb => hpre b (List.mem_cons_of_mem _ hb)) ?_ hrest
      rw [(perform_silent (hpre a List.mem_cons_self) ht).1]
      exact hrun

theorem Session.update_merged {s s' : Session} {env : Environment} {id : String}
    {worked : Job × List Action} {pre post : List Action} {json : String}
    {run : EventMailbox.Entry} (h : s.update env id worked = some s')
    (hactions : worked.2 = pre ++ .enqueue .error json :: post) (hpre : ∀ a ∈ pre, Silent a)
    (hrun : s.events.unreadError id = some run) :
    Entry.merged id run.json json ∈ s'.trace := by
  rw [update, hactions] at h
  have hrun' : (s.setJob id worked.1).events.unreadError id = some run := hrun
  exact performAll_merged hpre hrun' h

/-- An error alert outside a checkpoint is reported. -/
theorem AlertEnd.reportsRecoverable {env : Environment} {id : String} {value : Job} {alert : Alert}
    {worked : Job × List Action} (h : AlertEnd env id value alert worked)
    (hkind : alert.kind.isError = true) (hidle : value.checkpoint.barrier.pending = false) :
    worked.2 = [.enqueue .error (recoverableErrorJson id)] := by
  cases h with
  | errorReported _ _ => rfl
  | errorNoted _ hphase => simp [hidle] at hphase
  | ignored herror => simp [hkind] at herror
  | metadata hk | rejected hk | completing hk | flushed _ hk | saved _ _ hk | saveFailed _ hk
  | status hk => simp [hk, AlertKind.isError] at hkind

/-- A completion that fails submits its code-16 event. -/
theorem AlertEnd.reportsFailure {env : Environment} {id : String} {value : Job} {alert : Alert}
    {worked : Job × List Action} (h : AlertEnd env id value alert worked)
    (hfails : value.failsCompletion env alert = true) :
    ∃ failure post, worked.2 =
      [.accepted alert] ++ .enqueue .error (completionFailedJson id failure) :: post := by
  have hfinish : ∀ {phase data success} (fin : Job × List Action),
      FinishEnd env id (value.withReply phase data) success fin →
      value.completionCheckpoint = true →
      (∃ failure, completionOutcome env value
        (success && decide (value.checkpoint.error = .ok)) = .failed failure) →
      ∃ failure post, Action.accepted alert :: fin.2 =
        [.accepted alert] ++ .enqueue .error (completionFailedJson id failure) :: post := by
    intro phase data success fin hend hc hfailed
    have hfailed' : ∃ failure, completionOutcome env (value.withReply phase data)
        (success && decide ((value.withReply phase data).checkpoint.error = .ok)) =
          .failed failure := by
      rw [completionOutcome_withReply]
      exact hfailed
    obtain ⟨failure, hf⟩ := hfailed'
    cases hend with
    | completion _ hend =>
        cases hend with
        | recheck _ _ houtcome => simp [houtcome] at hf
        | completed _ _ houtcome => simp [houtcome] at hf
        | failed failure' _ _ _ => exact ⟨failure', _, rfl⟩
    | answered hcompletion _ => simp [Job.withReply, hc] at hcompletion
    | drained hcompletion _ => simp [Job.withReply, hc] at hcompletion
  cases h with
  | @saved request data hkind hphase fin hend =>
      obtain ⟨hc, hfailed⟩ := (Job.failsCompletion_saved hkind hphase).mp hfails
      exact hfinish fin hend hc hfailed
  | @saveFailed request hkind hphase fin hend =>
      have hc := (Job.failsCompletion_saveFailed hkind hphase).mp hfails
      refine hfinish fin hend hc ?_
      rw [Bool.false_and, completionOutcome_failed_iff]
      exact Or.inl rfl
  | errorNoted hk | errorReported hk =>
      cases hkind : alert.kind <;> simp [hkind, AlertKind.isError] at hk <;>
        simp [Job.failsCompletion, hkind] at hfails
  | ignored _ _ hsaved hfailed =>
      cases hkind : alert.kind <;> simp [Job.failsCompletion, hkind] at hfails
      · exact absurd hfails.2.1 (hsaved _ _ hkind)
      · rw [hfailed _ hkind] at hfails
        simp at hfails
  | metadata hk | rejected hk | completing hk | flushed _ hk | status hk =>
      simp [Job.failsCompletion, hk] at hfails

/-! ## The contract -/

namespace World

/-- What has been read for a job since its add is the beginning of what was enqueued for it,
    without the repeats of one-shot kinds; and every error that went into an unread run has the
    payload of that run. -/
def Delivered (w : World) : Prop :=
  (∀ id, KeyedFifo.taken id (mails w.session.trace) <+:
    KeyedFifo.dropRepeats Kind.oneShot [] (KeyedFifo.submitted id (mails w.session.trace))) ∧
  ∀ id stored json, Entry.merged id stored json ∈ w.session.trace → stored = json

/-- The step keeps the two error codes of a job apart. -/
def KeepsCodesApart (w : World) : Step → Prop
  | .alert env alert => ∀ job ∈ w.session.routed env alert,
      job.2.KeepsCodesApart env job.1 alert w.session.events
  | _ => True

instance (w : World) (l : Step) : Decidable (w.KeepsCodesApart l) :=
  match l with
  | .alert env alert => inferInstanceAs (Decidable (∀ job ∈ w.session.routed env alert, _))
  | .call _ _ _ | .resume _ _ | .destroy => isTrue trivial

/-- The invariant of the runs that keep the codes apart. -/
structure Faithful (w : World) : Prop where
  slots : w.session.Slots
  callers : w.Callers
  delivers : w.session.Delivers

theorem Faithful.init : Faithful {} := by
  obtain ⟨hs, hc⟩ := run_callers (@Lts.exec_nil _ _ step ({} : World))
  exact ⟨hs, hc, .init⟩

theorem Faithful.delivered {w : World} (h : w.Faithful) : w.Delivered := by
  refine ⟨fun id => ?_, h.delivers.agree⟩
  obtain ⟨f, hf, _⟩ := h.delivers.refines
  exact ⟨_, KeyedFifo.taken_append_queue hf id⟩

theorem Faithful.step {w w' : World} {l : Step} (h : w.Faithful) (hapart : w.KeepsCodesApart l)
    (hstep : w.step l = some w') : w'.Faithful := by
  obtain ⟨hs, hc⟩ := step_callers h.slots h.callers hstep
  refine ⟨hs, hc, ?_⟩
  cases l with
  | alert env alert =>
      simp only [World.step, Option.ite_none_left_eq_some, Option.map_eq_some_iff] at hstep
      obtain ⟨_, s, hh, rfl⟩ := hstep
      exact handleAlert_delivers hh h.slots h.delivers hapart
  | destroy =>
      obtain rfl := Option.some.inj hstep
      exact h.delivers.same [] rfl (List.append_nil _).symm (by simp) (by simp) fun _ _ h => h
  | call env c api =>
      simp only [World.step, Option.ite_none_left_eq_some, Option.map_eq_some_iff] at hstep
      obtain ⟨_, res, hres, rfl⟩ := hstep
      have hcalled : (w.session.record (.called c api)).Delivers := h.delivers.record rfl (by simp)
      have hdone : res.1.Delivers := by
        rcases enter_moves (fun _ => True) (fun _ _ => trivial) hres with hm | hm
        · exact hm.delivers hcalled
        · exact hm.delivers hcalled
      cases hr : res.2 with
      | some response => exact hdone.record rfl (by simp)
      | none => exact hdone
  | resume env c =>
      obtain ⟨wait, res, hwait, hres, rfl⟩ := World.step_resume hstep
      have hm := h.callers.resumed hwait hres
      exact (hm.delivers h.delivers).record rfl (by simp)

/-- A step that mixes the codes up breaks the contract. -/
theorem Faithful.step_mixed {w w' : World} {l : Step} (h : w.Faithful)
    (hmixed : ¬ w.KeepsCodesApart l) (hstep : w.step l = some w') : ¬ w'.Delivered := by
  cases l with
  | call | resume | destroy => exact absurd trivial hmixed
  | alert env alert =>
      simp only [World.step, Option.ite_none_left_eq_some, Option.map_eq_some_iff] at hstep
      obtain ⟨_, s, hh, rfl⟩ := hstep
      simp only [KeepsCodesApart, Job.KeepsCodesApart, not_forall] at hmixed
      obtain ⟨⟨id, value⟩, hrouted, run, hrun, hbad⟩ := hmixed
      have hvalue := (routed_spec hrouted).1
      rw [handleAlert, Option.mem_def.mp hrouted] at hh
      have hend := onAlert_end env id value alert
      intro hdelivered
      rw [not_and_or, not_forall] at hbad
      rcases hbad with ⟨hkind, hbad⟩ | hfails
      · -- an error alert while a code-16 event is unread
        rw [not_forall] at hbad
        obtain ⟨hidle, hne⟩ := hbad
        have hmerged := @update_merged _ _ env id _ [] [] _ run hh
          (hend.reportsRecoverable hkind hidle) (by simp) hrun
        exact hne (hdelivered.2 id _ _ hmerged)
      · -- a completion that fails while a code-12 event is unread
        rw [Bool.not_eq_false] at hfails
        obtain ⟨failure, post, heq⟩ := hend.reportsFailure hfails
        have hmerged := update_merged hh heq (by simp [Silent]) hrun
        have hjson := hdelivered.2 id _ _ hmerged
        have hcompletion : value.completionCheckpoint = true := by
          simp only [Job.failsCompletion, Bool.and_eq_true] at hfails
          exact hfails.1
        rcases h.delivers.unread.unreadError hrun with hrec | hended
        · exact recoverable_ne_completionFailed id failure (hrec.symm.trans hjson)
        · simp [(hended value hvalue).completion] at hcompletion

/-- **Payload fidelity, and when it holds.** Along a run, what `next_event` returns for each
    job is what was enqueued for it, byte for byte, exactly when no step mixes up the two error
    codes of a job: when no error alert is reported while a code-16 event of its job is unread,
    and no completion fails while an error of its job is unread. -/
theorem payloads_delivered_iff {ls : List Step} {w : World}
    (hrun : Lts.exec step {} ls = some w) :
    Lts.EachState step Delivered {} ls ↔ Lts.EachStep step KeepsCodesApart {} ls := by
  have hany : Lts.EachStep step (fun _ _ => True) {} ls := fun _ _ _ _ _ => trivial
  exact Lts.eachState_iff_eachStep Faithful.init (fun _ h => h.delivered)
    (fun _ _ _ h _ hapart hstep => h.step hapart hstep)
    (fun _ _ _ h _ hmixed hstep => h.step_mixed hmixed hstep) hrun hany

/-- A recoverable error is read before the completion fails. -/
def apartRun : List Step :=
  [.call sampleEnvironment 0 (.add sampleRequest),
    .alert sampleEnvironment ⟨1, .torrentError⟩,
    .call sampleEnvironment 0 (.nextEvent 0),
    .call sampleEnvironment 0 (.nextEvent 0),
    .alert sampleEnvironment ⟨1, .torrentFinished⟩,
    .alert sampleEnvironment ⟨1, .cacheFlushed 15⟩,
    .alert sampleEnvironment ⟨1, .saveResumeDataFailed 18⟩,
    .call sampleEnvironment 0 (.nextEvent 0)]

theorem apartRun_delivered : Lts.EachState step Delivered {} apartRun := by
  have hcheck : Lts.checkEachStep step (fun w l => decide (w.KeepsCodesApart l)) {} apartRun
    = true := by decide +kernel
  exact (payloads_delivered_iff (exec_after (by decide +kernel))).mpr
    ((Lts.eachStep_of_check hcheck).mono fun _ _ => of_decide_eq_true)

/-- A recoverable error is still unread when the completion fails. -/
def mixedRun : List Step :=
  [.call sampleEnvironment 0 (.add sampleRequest),
    .alert sampleEnvironment ⟨1, .torrentError⟩,
    .alert sampleEnvironment ⟨1, .torrentFinished⟩,
    .alert sampleEnvironment ⟨1, .cacheFlushed 11⟩,
    .alert sampleEnvironment ⟨1, .saveResumeDataFailed 14⟩,
    .call sampleEnvironment 0 (.nextEvent 0),
    .call sampleEnvironment 0 (.nextEvent 0),
    .call sampleEnvironment 0 (.nextEvent 0)]

/-- The code-16 event is read as a second code-12 event. -/
theorem mixedRun_not_delivered :
    Lts.exec step {} mixedRun = some (after mixedRun) ∧
      KeyedFifo.submitted "a" (mails (after mixedRun).session.trace) =
        [(.metadata, metadataReadyJson "a"), (.error, recoverableErrorJson "a"),
          (.error, completionFailedJson "a" .checkpoint)] ∧
      KeyedFifo.taken "a" (mails (after mixedRun).session.trace) =
        [metadataReadyJson "a", recoverableErrorJson "a", recoverableErrorJson "a"] ∧
      ¬ (after mixedRun).Delivered := by
  have hsubmitted : KeyedFifo.submitted "a" (mails (after mixedRun).session.trace) =
        [(.metadata, metadataReadyJson "a"), (.error, recoverableErrorJson "a"),
          (.error, completionFailedJson "a" .checkpoint)] := by decide +kernel
  have htaken : KeyedFifo.taken "a" (mails (after mixedRun).session.trace) =
        [metadataReadyJson "a", recoverableErrorJson "a", recoverableErrorJson "a"] := by
    decide +kernel
  refine ⟨exec_after (by decide +kernel), hsubmitted, htaken, fun h => ?_⟩
  have hinitial := h.1 "a"
  rw [hsubmitted, htaken] at hinitial
  simp [KeyedFifo.dropRepeats, KeyedFifo.dropped, Kind.oneShot, List.cons_prefix_cons,
    recoverable_ne_completionFailed] at hinitial

end World

end LibtorrentKit
