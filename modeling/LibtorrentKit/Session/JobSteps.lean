/-
  What the functions of the source do to one job, case by case.

  `startWaitingCompletion_cases`, `finishCheckpoint_end` and `onAlert_end` are the inversion
  lemmas that the invariants are proved from.
-/
import LibtorrentKit.Session.Api

namespace LibtorrentKit

/-! ## Starting a checkpoint -/

/-- The job after `start_waiting_completion` has found the slot free. -/
def Job.completionStarted (value : Job) : Job :=
  { value with
    completionWaiting := false
    completionCheckpoint := true
    checkpoint := { value.checkpoint with barrier := ⟨.flushing⟩ } }

/-- `start_waiting_completion` does nothing when there is nothing to start or the slot is
    occupied, and else issues the first fence of the completion. -/
theorem startWaitingCompletion_cases (value : Job) :
    (startWaitingCompletion value = (value, []) ∧ (value.completionWaiting = true →
      value.checkpoint.active = true ∨ value.checkpoint.barrier.phase ≠ .idle)) ∨
    (value.completionWaiting = true ∧ value.checkpoint.active = false ∧
      value.checkpoint.barrier.phase = .idle ∧
      startWaitingCompletion value = (value.completionStarted,
        [.began value.handle true true, .command (.flushCache value.handle)])) := by
  unfold startWaitingCompletion
  split
  · next h =>
      refine Or.inl ⟨rfl, fun hw => ?_⟩
      simp only [hw, Bool.not_true, Bool.false_or, Bool.or_eq_true, Bool.not_eq_eq_eq_not,
        DiskCheckpoint.idle, decide_eq_false_iff_not] at h
      exact h
  · next h =>
      simp only [Bool.or_eq_true, Bool.not_eq_eq_eq_not, Bool.not_true, not_or, Bool.not_eq_true,
        Bool.not_eq_false, DiskCheckpoint.idle_iff] at h
      obtain ⟨⟨hw, ha⟩, hi⟩ := h
      refine Or.inr ⟨hw, ha, hi, ?_⟩
      simp [startCheckpoint, DiskCheckpoint.begin, hi, Job.completionStarted]

theorem beginCheckpoint_eq (value : Job) (flush : Bool) :
    Session.beginCheckpoint value flush =
      ({ value with
          checkpoint := { active := true, barrier := ⟨if flush then .flushing else .saving⟩ } },
        [.began value.handle flush value.completionCheckpoint,
          .command (if flush then .flushCache value.handle else .saveResumeData value.handle)]) := by
  simp [Session.beginCheckpoint, startCheckpoint, DiskCheckpoint.begin]

/-! ## The end of a checkpoint -/

/-- What `finish_checkpoint` reads into a job on the way to its decision. -/
theorem completionJob_eq (env : Environment) (value : Job) (success : Bool) :
    ∃ payloads metadata, completionJob env value success =
      { value with finalPayloads := payloads, finalMetadata := metadata } := by
  have hrefresh : ∃ payloads, (refreshSelectedPayloads env value).1 =
      { value with finalPayloads := payloads } := by
    unfold refreshSelectedPayloads
    split
    · exact ⟨_, rfl⟩
    · exact ⟨_, rfl⟩
  obtain ⟨payloads, hr⟩ := hrefresh
  have hcache : ∃ metadata, cacheFinalMetadata env { value with finalPayloads := payloads } =
      { value with finalPayloads := payloads, finalMetadata := metadata } := by
    unfold cacheFinalMetadata
    split
    · exact ⟨_, rfl⟩
    · exact ⟨_, rfl⟩
  obtain ⟨metadata, hm⟩ := hcache
  unfold completionJob
  split
  · exact ⟨_, _, rfl⟩
  · split
    · exact ⟨payloads, _, hr⟩
    · exact ⟨payloads, metadata, by rw [hr, hm]⟩

/-- The ways in which the checkpoint of a completion ends. -/
inductive CompletionEnd (env : Environment) (id : String) (value : Job) (success : Bool) :
    Job × List Action → Prop
  | recheck (payloads : List SelectedPayload) (metadata : String)
      (houtcome : completionOutcome env value success = .recheck) :
      CompletionEnd env id value success ({ value with
          finalPayloads := payloads
          finalMetadata := metadata
          completionRechecked := true
          checkpoint := { barrier := ⟨.flushing⟩ } },
        [.began value.handle true value.completionCheckpoint,
          .command (.flushCache value.handle)])
  | completed (payloads : List SelectedPayload) (metadata : String)
      (houtcome : completionOutcome env value success = .completed) :
      CompletionEnd env id value success ({ value with
          finalPayloads := payloads
          finalMetadata := metadata
          finalStatus := some (env.status value.handle)
          finalResumeData := value.checkpoint.data
          completionCheckpoint := false
          stopped := true
          checkpoint := {} },
        [.enqueue .completed (completedJson id (env.status value.handle)),
          .command (.removeTorrent value.handle false),
          .enqueue .stopped (stoppedAfterCompletionJson id)])
  | failed (failure : CompletionFailure) (payloads : List SelectedPayload) (metadata : String)
      (houtcome : completionOutcome env value success = .failed failure) :
      CompletionEnd env id value success ({ value with
          finalPayloads := payloads
          finalMetadata := metadata
          completionCheckpoint := false
          stopped := true
          checkpoint := {} },
        [.enqueue .error (completionFailedJson id failure),
          .command (.removeTorrent value.handle false)])

theorem finishCompletion_end (env : Environment) (id : String) (value : Job) (success : Bool) :
    CompletionEnd env id value success (finishCompletion env id value success) := by
  obtain ⟨payloads, metadata, hread⟩ := completionJob_eq env value success
  unfold finishCompletion
  simp only [hread]
  split
  · next h =>
      simp only [startCheckpoint, DiskCheckpoint.begin, ne_eq, not_true_eq_false, if_false, if_true]
      exact .recheck payloads metadata h
  · next h => exact .completed payloads metadata h
  · next failure h => exact .failed failure payloads metadata h

/-- The ways in which `finish_checkpoint` ends a checkpoint. -/
inductive FinishEnd (env : Environment) (id : String) (value : Job) (success : Bool) :
    Job × List Action → Prop
  | completion {worked : Job × List Action} (hcompletion : value.completionCheckpoint = true)
      (hend : CompletionEnd env id value
        (success && decide (value.checkpoint.error = .ok)) worked) :
      FinishEnd env id value success worked
  | answered (hcompletion : value.completionCheckpoint = false)
      (hactive : value.checkpoint.active = true) :
      FinishEnd env id value success ({ value with
        checkpoint := { value.checkpoint with
          done := true
          error := if success && decide (value.checkpoint.error = .ok) then .ok
            else .nativeFailure } }, [])
  | drained (hcompletion : value.completionCheckpoint = false)
      (hactive : value.checkpoint.active = false) :
      FinishEnd env id value success (startWaitingCompletion { value with checkpoint := {} })

theorem finishCheckpoint_end (env : Environment) (id : String) (value : Job) (success : Bool) :
    FinishEnd env id value success (finishCheckpoint env id value success) := by
  unfold finishCheckpoint
  dsimp only
  split
  · next hc => exact .completion hc (finishCompletion_end env id value _)
  · next hc =>
      have hc : value.completionCheckpoint = false := by simpa using hc
      split
      · next ha => exact .answered hc ha
      · next ha => exact .drained hc (by simpa using ha)

/-! ## Alerts -/

/-- The job when its barrier has just accepted a reply. -/
def Job.withReply (value : Job) (phase : Phase) (data : Bytes) : Job :=
  { value with checkpoint := { value.checkpoint with barrier := ⟨phase⟩, data } }

/-- The ways in which an alert changes the job that it is handed to. -/
inductive AlertEnd (env : Environment) (id : String) (value : Job) (alert : Alert) :
    Job × List Action → Prop
  | metadata (hkind : alert.kind = .metadataReceived) {value' : Job} {actions : List Action}
      (hselects : value.Selects value') (htuning : Tuning actions) :
      AlertEnd env id value alert
        (value', actions ++ [.enqueue .metadata (metadataReadyJson id)])
  | rejected (hkind : alert.kind = .metadataReceived) {value' : Job} {actions : List Action}
      (hselects : value.Selects value') (htuning : Tuning actions) :
      AlertEnd env id value alert ({ value' with stopped := true },
        actions ++ [.command (.pause value'.handle), .command (.removeTorrent value'.handle false),
          .enqueue .invalidSelection (invalidSelectionJson id)])
  | completing (hkind : alert.kind = .torrentFinished) (hcompletes : completes env value = true)
      {worked : Job × List Action}
      (hworked : startWaitingCompletion { value with completionWaiting := true } = worked) :
      AlertEnd env id value alert (worked.1,
        .command (.pause value.handle) :: .completing value.handle value.desiredFiles :: worked.2)
  | flushed (request : Nat) (hkind : alert.kind = .cacheFlushed request)
      (hphase : value.checkpoint.barrier.phase = .flushing) :
      AlertEnd env id value alert (value.withReply .saving value.checkpoint.data,
        [.accepted alert, .command (.saveResumeData value.handle)])
  | saved (request : Nat) (data : Bytes) (hkind : alert.kind = .saveResumeData request data)
      (hphase : value.checkpoint.barrier.phase = .saving) {worked : Job × List Action}
      (hend : FinishEnd env id (value.withReply .succeeded data) true worked) :
      AlertEnd env id value alert (worked.1, .accepted alert :: worked.2)
  | saveFailed (request : Nat) (hkind : alert.kind = .saveResumeDataFailed request)
      (hphase : value.checkpoint.barrier.pending = true) {worked : Job × List Action}
      (hend : FinishEnd env id (value.withReply .failed value.checkpoint.data) false worked) :
      AlertEnd env id value alert (worked.1, .accepted alert :: worked.2)
  | errorNoted (hkind : alert.kind.isError = true)
      (hphase : value.checkpoint.barrier.pending = true) :
      AlertEnd env id value alert
        ({ value with checkpoint := { value.checkpoint with error := .nativeFailure } }, [])
  | errorReported (hkind : alert.kind.isError = true)
      (hphase : value.checkpoint.barrier.pending = false) :
      AlertEnd env id value alert (value, [.enqueue .error (recoverableErrorJson id)])
  | status (hkind : alert.kind = .stateChanged) (json : String) :
      AlertEnd env id value alert (value, [.status json])
  | ignored (herror : alert.kind.isError = false)
      (hflushed : ∀ r, alert.kind = .cacheFlushed r →
        value.checkpoint.barrier.phase ≠ .flushing)
      (hsaved : ∀ r data, alert.kind = .saveResumeData r data →
        value.checkpoint.barrier.phase ≠ .saving)
      (hfailed : ∀ r, alert.kind = .saveResumeDataFailed r →
        value.checkpoint.barrier.pending = false) :
      AlertEnd env id value alert (value, [])

theorem onAlert_end (env : Environment) (id : String) (value : Job) (alert : Alert) :
    AlertEnd env id value alert (onAlert env id value alert) := by
  unfold onAlert
  cases hkind : alert.kind with
  | metadataReceived =>
      have hready : value.Selects { value with metadataReady := true } :=
        ⟨_, _, _, _, _, _, rfl, fun _ => rfl⟩
      have hsel := hready.trans (applySelection_selects env _)
      have htune := (applySelection_prioritizing env { value with metadataReady := true }).tuning
      dsimp only
      split
      · exact .rejected hkind hsel htune
      · exact .metadata hkind hsel htune
  | torrentFinished =>
      dsimp only
      split
      · next hc => exact .completing hkind hc rfl
      · exact .ignored (by simp [hkind, AlertKind.isError]) (by simp [hkind]) (by simp [hkind])
          (by simp [hkind])
  | cacheFlushed request =>
      by_cases hp : value.checkpoint.barrier.phase = .flushing
      · simp only [DiskCheckpoint.cacheFlushed, hp, ne_eq, not_true_eq_false, if_false, if_true]
        exact .flushed request hkind hp
      · simp only [DiskCheckpoint.cacheFlushed, ne_eq, hp, not_false_eq_true, if_true,
          Bool.false_eq_true, if_false]
        exact .ignored (by simp [hkind, AlertKind.isError]) (fun _ _ => hp) (by simp [hkind])
          (by simp [hkind])
  | saveResumeData request data =>
      by_cases hp : value.checkpoint.barrier.phase = .saving
      · simp only [DiskCheckpoint.resumeSaved, hp, ne_eq, not_true_eq_false, if_false, if_true]
        exact .saved request data hkind hp (finishCheckpoint_end env id _ _)
      · simp only [DiskCheckpoint.resumeSaved, ne_eq, hp, not_false_eq_true, if_true,
          Bool.false_eq_true, if_false]
        exact .ignored (by simp [hkind, AlertKind.isError]) (by simp [hkind]) (fun _ _ _ => hp)
          (by simp [hkind])
  | saveResumeDataFailed request =>
      cases hp : value.checkpoint.barrier.pending with
      | true =>
          simp only [DiskCheckpoint.fail, hp, Bool.not_true, Bool.false_eq_true, if_false, if_true]
          exact .saveFailed request hkind hp (finishCheckpoint_end env id _ _)
      | false =>
          simp only [DiskCheckpoint.fail, hp, Bool.not_false, if_true, Bool.false_eq_true, if_false]
          exact .ignored (by simp [hkind, AlertKind.isError]) (by simp [hkind]) (by simp [hkind])
            (fun _ _ => hp)
  | torrentError =>
      dsimp only
      split
      · next hp => exact .errorNoted (by simp [hkind, AlertKind.isError]) hp
      · next hp => exact .errorReported (by simp [hkind, AlertKind.isError]) (by simpa using hp)
  | fileError =>
      dsimp only
      split
      · next hp => exact .errorNoted (by simp [hkind, AlertKind.isError]) hp
      · next hp => exact .errorReported (by simp [hkind, AlertKind.isError]) (by simpa using hp)
  | stateChanged => exact .status hkind _
  | other =>
      exact .ignored (by simp [hkind, AlertKind.isError]) (by simp [hkind]) (by simp [hkind])
        (by simp [hkind])

end LibtorrentKit
