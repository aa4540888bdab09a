/-
  Checkpoints, completion and the alert loop: `start_checkpoint`, `start_waiting_completion`,
  `refresh_selected_payloads`, `cache_final_metadata`, `finish_checkpoint` and one turn of
  the loop of `alerts`.

  `finish_checkpoint` decides how a completion ends while it changes the job. Here
  `completionOutcome` is the decision and `completionJob` the job it has read into; both
  follow the same branches.

  The alert thread holds the mutex for a whole batch of alerts. `Session.handleAlert` is one
  alert, so a run of the model may let a call in between two alerts of a batch.
-/
import LibtorrentKit.Session.Selection

namespace LibtorrentKit

/-! ## Starting a checkpoint -/

/-- `start_checkpoint`: the answer of `begin` is not looked at. -/
def startCheckpoint (value : Job) (flush : Bool) : Job × List Action :=
  ({ value with
      checkpoint := { value.checkpoint with barrier := (value.checkpoint.barrier.begin flush).2 } },
    [.began value.handle flush value.completionCheckpoint,
      .command (if flush then .flushCache value.handle else .saveResumeData value.handle)])

def startWaitingCompletion (value : Job) : Job × List Action :=
  if !value.completionWaiting || value.checkpoint.active || !value.checkpoint.barrier.idle then
    (value, [])
  else
    startCheckpoint { value with completionWaiting := false, completionCheckpoint := true } true

/-! ## Completion -/

/-- The loop of `refresh_selected_payloads` over the desired files. -/
def refreshLoop (info : TorrentInfo) (savePath : String) (progress : List Int)
    (payloads : List SelectedPayload) : List Int → List SelectedPayload × Bool
  | [] => (payloads, true)
  | index :: rest =>
      match (if index < 0 then none else info.layout[index.toNat]?) with
      | none => (payloads, false)
      | some file =>
          if file.padFile then refreshLoop info savePath progress payloads rest
          else
            match safeRelativePath file, progress[index.toNat]? with
            | some path, some complete =>
                if complete < file.size then (payloads, false)
                else refreshLoop info savePath progress
                  (payloads ++ [⟨joinPath savePath path, file.size⟩]) rest
            | _, _ => (payloads, false)

def refreshSelectedPayloads (env : Environment) (value : Job) : Job × Bool :=
  match env.torrentFile value.handle with
  | none => ({ value with finalPayloads := [] }, false)
  | some info =>
      let (payloads, ok) := refreshLoop info (env.status value.handle).savePath
        (env.fileProgress value.handle) [] value.desiredFiles
      ({ value with finalPayloads := payloads }, ok && syncSelectedPayloads env.disk payloads)

def cacheFinalMetadata (env : Environment) (value : Job) : Job :=
  match metadataJson env value.handle with
  | some metadata => { value with finalMetadata := metadata }
  | none => value

/-- How the checkpoint of a completion ends. -/
inductive CompletionOutcome where
  | recheck
  | completed
  | failed (failure : CompletionFailure)
  deriving DecidableEq, Repr

/-- What `finish_checkpoint` decides for a completion whose checkpoint ended with `success`. -/
def completionOutcome (env : Environment) (value : Job) (success : Bool) : CompletionOutcome :=
  if !success then .failed .checkpoint
  else if !(refreshSelectedPayloads env value).2 then
    if !value.completionRechecked then .recheck else .failed .payloads
  else if (cacheFinalMetadata env (refreshSelectedPayloads env value).1).finalMetadata = "" then
    .failed .metadata
  else .completed

/-- The job with what `finish_checkpoint` reads into it on the way to its decision. -/
def completionJob (env : Environment) (value : Job) (success : Bool) : Job :=
  if !success then value
  else if !(refreshSelectedPayloads env value).2 then (refreshSelectedPayloads env value).1
  else cacheFinalMetadata env (refreshSelectedPayloads env value).1

/-- The branch of `finish_checkpoint` for a completion. -/
def finishCompletion (env : Environment) (id : String) (value : Job) (success : Bool) :
    Job × List Action :=
  let read := completionJob env value success
  match completionOutcome env value success with
  | .recheck => startCheckpoint { read with completionRechecked := true, checkpoint := {} } true
  | .completed =>
      let status := env.status value.handle
      ({ read with
          finalStatus := some status
          finalResumeData := value.checkpoint.data
          completionCheckpoint := false
          stopped := true
          checkpoint := {} },
        [.enqueue .completed (completedJson id status),
          .command (.removeTorrent value.handle false),
          .enqueue .stopped (stoppedAfterCompletionJson id)])
  | .failed failure =>
      ({ read with completionCheckpoint := false, stopped := true, checkpoint := {} },
        [.enqueue .error (completionFailedJson id failure),
          .command (.removeTorrent value.handle false)])

def finishCheckpoint (env : Environment) (id : String) (value : Job) (success : Bool) :
    Job × List Action :=
  let success := success && decide (value.checkpoint.error = .ok)
  if value.completionCheckpoint then finishCompletion env id value success
  else if value.checkpoint.active then
    ({ value with
        checkpoint := { value.checkpoint with
          done := true
          error := if success then .ok else .nativeFailure } }, [])
  else startWaitingCompletion { value with checkpoint := {} }

/-! ## Alerts -/

/-- The condition under which a finished alert starts the completion. -/
def completes (env : Environment) (value : Job) : Bool :=
  value.completionStops && value.finalStatus.isNone && !value.completionCheckpoint
    && !value.completionWaiting && !value.stopped
    && decide (0 < (env.status value.handle).totalWanted) && (env.status value.handle).isFinished

/-- What one alert does to the job of `id`. -/
def onAlert (env : Environment) (id : String) (value : Job) (alert : Alert) :
    Job × List Action :=
  match alert.kind with
  | .metadataReceived =>
      let (value, actions, ok) := applySelection env { value with metadataReady := true }
      if !ok then
        ({ value with stopped := true },
          actions ++ [.command (.pause value.handle), .command (.removeTorrent value.handle false),
            .enqueue .invalidSelection (invalidSelectionJson id)])
      else (value, actions ++ [.enqueue .metadata (metadataReadyJson id)])
  | .torrentFinished =>
      if completes env value then
        let (started, actions) := startWaitingCompletion { value with completionWaiting := true }
        (started,
          .command (.pause value.handle) :: .completing value.handle value.desiredFiles :: actions)
      else (value, [])
  | .cacheFlushed _ =>
      let (accepted, barrier) := value.checkpoint.barrier.cacheFlushed
      if accepted then
        ({ value with checkpoint := { value.checkpoint with barrier } },
          [.accepted alert, .command (.saveResumeData value.handle)])
      else (value, [])
  | .saveResumeData _ data =>
      let (accepted, barrier) := value.checkpoint.barrier.resumeSaved
      if accepted then
        let (finished, actions) := finishCheckpoint env id
          { value with checkpoint := { value.checkpoint with barrier, data } } true
        (finished, .accepted alert :: actions)
      else (value, [])
  | .saveResumeDataFailed _ =>
      let (accepted, barrier) := value.checkpoint.barrier.fail
      if accepted then
        let (finished, actions) := finishCheckpoint env id
          { value with checkpoint := { value.checkpoint with barrier } } false
        (finished, .accepted alert :: actions)
      else (value, [])
  | .torrentError | .fileError =>
      if value.checkpoint.barrier.pending then
        ({ value with checkpoint := { value.checkpoint with error := .nativeFailure } }, [])
      else (value, [.enqueue .error (recoverableErrorJson id)])
  | .stateChanged =>
      (value, [.status (statusChangedJson id (env.status value.handle) value.stopped)])
  | .other => (value, [])

namespace Session

/-- Replace the job of `id` and carry out the actions. -/
def update (s : Session) (env : Environment) (id : String) (worked : Job × List Action) :
    Option Session :=
  (s.setJob id worked.1).performAll env id worked.2

/-- The job an alert is handed to. -/
def routed (s : Session) (env : Environment) (alert : Alert) : Option (String × Job) :=
  (s.idFor env alert.handle).bind fun id => (s.jobs.lookup id).bind fun value =>
    if env.isValid value.handle then some (id, value) else none

/-- One turn of the loop of `alerts`. -/
def handleAlert (s : Session) (env : Environment) (alert : Alert) : Option Session :=
  match s.routed env alert with
  | none => some (s.record (.alert none alert))
  | some (id, value) =>
      (s.record (.alert (some id) alert)).update env id (onAlert env id value alert)

end Session

end LibtorrentKit
