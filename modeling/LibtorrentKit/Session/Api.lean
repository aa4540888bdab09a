/-
  The calls of the C interface, one critical section at a time.

  A call runs under the session's mutex until it returns or waits on the condition
  variable. `Session.enter` is the part up to there; a call that waits answers `none`, and
  `Session.resume` is the part after the wait, which reads the wait predicate once more:
  when it is false the wait has timed out.

  Null pointers are not modelled, nor is `guarded`: no call into libtorrent throws here.
-/
import LibtorrentKit.Lib.Run
import LibtorrentKit.Session.Checkpoint

namespace LibtorrentKit

def kMaxSourceBytes : Nat := 64 * 1024 * 1024
def kMaxResumeBytes : Nat := 64 * 1024 * 1024

def Output.isEmpty : Output → Bool
  | .none => true
  | .text value => value.isEmpty
  | .bytes value => value.isEmpty
  | .bitset _ value => value.isEmpty

namespace Session

/-- Return what a call hands back: an output must be copied into a new buffer. -/
def reply (s : Session) (env : Environment) (allocationMessage : String) :
    Reply → Session × Response
  | .fail code safeMessage => s.fail code safeMessage
  | .ok output =>
      if copyBuffer env output.isEmpty then (s, { code := .ok, output })
      else s.fail .allocationLimit allocationMessage

def notActive (s : Session) : Session × Response :=
  s.fail .invalidIdentifier "The torrent identifier is not active."

/-- The calls that work on a job that is not stopped. -/
def onActive (s : Session) (env : Environment) (id : String) (allocationMessage : String)
    (body : Job → Job × List Action × Reply) : Option (Session × Response) :=
  match s.jobs.lookup id with
  | none => some s.notActive
  | some value =>
      if value.stopped then some s.notActive
      else
        let (value, actions, answer) := body value
        (s.update env id (value, actions)).map fun s => s.reply env allocationMessage answer

/-! ## `ltkit_session_add` -/

def isValidAdd (r : AddRequest) : Bool :=
  !r.identifier.isEmpty && decide (r.identifier.utf8ByteSize ≤ 64) && !r.source.isEmpty
    && decide (r.source.length ≤ kMaxSourceBytes) && decide (r.resumeData.length ≤ kMaxResumeBytes)
    && decide (r.selectedFiles.length ≤ 100000) && decide (-1 ≤ r.primaryFile)
    && decide (0 ≤ r.completionPolicy) && decide (r.completionPolicy ≤ 1)

/-- The parameters in the source and the resume data, or the code and text of the failure. -/
def addParams (env : Environment) (r : AddRequest) : Except (Code × String) AddTorrentParams :=
  if r.sourceKind ≠ 0 ∧ r.sourceKind ≠ 1 then
    .error (.invalidSource, "The torrent source kind is invalid.")
  else
    match (if r.sourceKind = 0 then env.parseMagnetUri r.source
        else env.loadTorrentBuffer r.source) with
    | none => .error (.invalidSource, "The torrent source could not be parsed.")
    | some params =>
        if r.resumeData.isEmpty then .ok params
        else
          match env.readResumeData r.resumeData with
          | none => .error (.corruptResumeData, "The resume data is corrupt or incompatible.")
          | some restored => .ok { restored with
              ti := params.ti <|> restored.ti
              infoHashes :=
                if restored.infoHashes.v1.isNone ∧ restored.infoHashes.v2.isNone then
                  params.infoHashes
                else restored.infoHashes }

/-- What `ltkit_session_add` sets in the parameters. -/
def withSettings (r : AddRequest) (params : AddTorrentParams) : AddTorrentParams :=
  { params with
    savePath := r.downloadDirectory
    defaultDontDownload := true
    paused := r.beginsPaused
    downloadLimit := max 0 r.downloadLimit
    uploadLimit := max 0 r.uploadLimit }

def desiredFiles (r : AddRequest) (params : AddTorrentParams) : List Int :=
  if r.hasFileSelection ∧ r.selectedFiles ≠ [] then r.selectedFiles
  else
    ((List.range params.filePriorities.length).filter fun index =>
      (params.filePriorities[index]?).any (· ≠ dontDownload)).map Int.ofNat

/-- The file priorities handed to libtorrent; `none` when a requested file does not exist. -/
def addPriorities (r : AddRequest) (params : AddTorrentParams) (desired : List Int) :
    Option (List Priority) :=
  match params.ti, r.hasFileSelection with
  | some info, true =>
      let count := info.layout.length
      match fillDesired count (List.replicate count dontDownload) desired with
      | (priorities, true) => some priorities
      | (_, false) => none
  | _, _ => some params.filePriorities

/-- The job of a torrent that libtorrent has accepted. -/
def newJob (env : Environment) (r : AddRequest) (params : AddTorrentParams) (desired : List Int)
    (handle : Handle) : Job where
  handle
  desiredFiles := desired
  filePriorities := params.filePriorities
  piecePriorities := params.piecePriorities
  primaryFile := r.primaryFile
  metadataReady := (env.torrentFile handle).isSome
  completionStops := decide (r.completionPolicy = 0)

/-- The end of `ltkit_session_add`: libtorrent has accepted the torrent. -/
def insertJob (s : Session) (env : Environment) (id : String) (params : AddTorrentParams)
    (value : Job) : Option Session :=
  let s := s.record (.command (.addTorrent params value.handle))
  let s := { s with
    events := s.events.add id
    jobs := s.jobs.insert id value
    trace := s.trace ++ [.mail (.begin id)] }
  if (env.torrentFile value.handle).isSome then s.enqueue env id .metadata (metadataReadyJson id)
  else some s

def ltkitSessionAdd (s : Session) (env : Environment) (r : AddRequest) :
    Option (Session × Response) :=
  if !isValidAdd r then some (s.fail .invalidArgument "The add request is invalid.")
  else if s.shuttingDown then
    some (s.fail .sessionShutDown "The torrent session has shut down.")
  else if r.identifier ∈ s.jobs then
    some (s.fail .duplicateIdentifier "The torrent identifier already exists.")
  else if !s.events.canAdd r.identifier then
    some (s.fail .allocationLimit
      "Drain events and remove unused torrents before adding more torrents.")
  else if r.downloadDirectory.toList.head? ≠ some '/' then
    some (s.fail .invalidArgument "The download directory must be absolute.")
  else
    match addParams env r with
    | .error (code, safeMessage) => some (s.fail code safeMessage)
    | .ok params =>
        let params := withSettings r params
        let desired := desiredFiles r params
        match addPriorities r params desired with
        | none => some (s.fail .invalidFileIndex "A requested file index is invalid.")
        | some priorities =>
            let params := { params with filePriorities := priorities }
            match env.addTorrent params with
            | none => some (s.fail .nativeFailure "The torrent could not be added.")
            | some handle =>
                (s.insertJob env r.identifier params (newJob env r params desired handle)).map
                  fun s => (s, { code := .ok })

/-! ## `ltkit_session_metadata` -/

/-- The predicate of the wait in `ltkit_session_metadata`. -/
def metadataWoken (s : Session) (id : String) (generation : Nat) : Bool :=
  s.shuttingDown || decide (s.wakeGeneration ≠ generation)
    || match s.jobs.lookup id with
      | none => true
      | some current => current.metadataReady || current.stopped

/-- The end of `ltkit_session_metadata`, once the metadata should be there. -/
def metadataResult (s : Session) (env : Environment) (id : String) : Option (Session × Response) :=
  match s.jobs.lookup id with
  | none => some (s.fail .metadataUnavailable "Torrent metadata is unavailable.")
  | some value =>
      if value.stopped || (env.torrentFile value.handle).isNone then
        some (s.fail .metadataUnavailable "Torrent metadata is unavailable.")
      else
        match metadataJson env value.handle with
        | none =>
            (s.update env id ({ value with stopped := true },
              [.command (.pause value.handle), .command (.removeTorrent value.handle false)])).map
              fun s => s.fail .pathViolation "Torrent metadata contains an unsafe file path."
        | some json =>
            some (s.reply env "The metadata response could not be allocated." (.ok (.text json)))

/-- `ltkit_session_metadata` after its wait. -/
def resumeMetadata (s : Session) (env : Environment) (id : String) (generation : Nat) :
    Option (Session × Response) :=
  if !s.metadataWoken id generation then
    some (s.fail .timedOut "Metadata acquisition timed out.")
  else if s.wakeGeneration ≠ generation ∧ s.shuttingDown = false then
    some (s.fail .timedOut "Metadata acquisition was cancelled.")
  else s.metadataResult env id

/-- The call returns. -/
def returning (r : Session × Response) : Session × Option Response := (r.1, some r.2)

def ltkitSessionMetadata (s : Session) (env : Environment) (id : String) (timeoutMs : Int) :
    Option (Session × Option Response) :=
  if timeoutMs < 0 then some (s, some { code := .invalidArgument })
  else
    match s.jobs.lookup id with
    | none => some (returning s.notActive)
    | some value =>
        if value.stopped && decide (value.finalMetadata ≠ "") then
          some (returning (s.reply env "The metadata response could not be allocated."
            (.ok (.text value.finalMetadata))))
        else if value.stopped then some (returning s.notActive)
        else if value.metadataReady then (s.metadataResult env id).map returning
        else if s.metadataWoken id s.wakeGeneration then
          (s.resumeMetadata env id s.wakeGeneration).map returning
        else some (s, none)

/-! ## `ltkit_session_checkpoint` -/

/-- The predicate of the wait in `ltkit_session_checkpoint`. -/
def checkpointWoken (s : Session) (id : String) (generation : Nat) : Bool :=
  s.shuttingDown || decide (s.wakeGeneration ≠ generation)
    || match s.jobs.lookup id with
      | none => true
      | some current => current.checkpoint.done

/-- The caller gives up: what it leaves of its checkpoint. -/
def abandonCheckpoint (value : Job) : Job × List Action :=
  if value.checkpoint.done then startWaitingCompletion { value with checkpoint := {} }
  else ({ value with checkpoint := { value.checkpoint with active := false } }, [])

/-- `ltkit_session_checkpoint` after its wait. -/
def resumeCheckpoint (s : Session) (env : Environment) (id : String) (generation : Nat) :
    Option (Session × Response) :=
  let completed := s.checkpointWoken id generation
  let interrupted := decide (s.wakeGeneration ≠ generation)
  let safeMessage :=
    if interrupted then "The checkpoint request was cancelled."
    else "The checkpoint request timed out."
  match s.jobs.lookup id with
  | none => some (s.fail .timedOut safeMessage)
  | some value =>
      if !completed || interrupted then
        (s.update env id (abandonCheckpoint value)).map fun s => s.fail .timedOut safeMessage
      else
        (s.update env id (startWaitingCompletion { value with checkpoint := {} })).map fun s =>
          if value.checkpoint.error ≠ .ok then
            s.fail value.checkpoint.error "The checkpoint request failed."
          else
            s.reply env "The checkpoint response could not be allocated."
              (.ok (.bytes value.checkpoint.data))

/-- The caller's own request. -/
def beginCheckpoint (value : Job) (flush : Bool) : Job × List Action :=
  startCheckpoint { value with checkpoint := { active := true } } flush

def ltkitSessionCheckpoint (s : Session) (env : Environment) (id : String) (flush : Bool)
    (timeoutMs : Int) : Option (Session × Option Response) :=
  if timeoutMs ≤ 0 then some (s, some { code := .invalidArgument })
  else
    match s.jobs.lookup id with
    | none => some (returning s.notActive)
    | some value =>
        if value.stopped && decide (value.finalResumeData ≠ []) then
          if flush && !syncSelectedPayloads env.disk value.finalPayloads then
            some (returning (s.fail .completionFailed
              "A selected torrent payload is missing or could not be flushed."))
          else
            some (returning (s.reply env "The checkpoint response could not be allocated."
              (.ok (.bytes value.finalResumeData))))
        else if value.stopped then some (returning s.notActive)
        else if value.checkpoint.active || !value.checkpoint.barrier.idle
            || value.completionCheckpoint then
          some (returning (s.fail .nativeFailure
            "A checkpoint is already pending for this torrent."))
        else
          (s.update env id (beginCheckpoint value flush)).bind fun s =>
            if s.checkpointWoken id s.wakeGeneration then
              (s.resumeCheckpoint env id s.wakeGeneration).map returning
            else some (s, none)

/-! ## `ltkit_session_next_event` -/

/-- The predicate of the wait in `ltkit_session_next_event`. -/
def nextEventWoken (s : Session) (env : Environment) (generation : Nat) : Bool :=
  (s.events.front env.mailboxOrder).isSome || s.shuttingDown
    || decide (s.wakeGeneration ≠ generation)

/-- `events.pop`, after `json` has been copied out. -/
def popEvent (s : Session) (env : Environment) (json : String) : Option Session :=
  match s.events.pop env.mailboxOrder with
  | .ok events =>
      some { s with
        events
        trace := s.trace ++
          (s.events.critical_.head?.map fun e => Entry.mail (.take e.id json)).toList }
  | .error _ => none

/-- `ltkit_session_next_event` after its wait. -/
def resumeNextEvent (s : Session) (env : Environment) : Option (Session × Response) :=
  if s.shuttingDown then some (s, { code := .sessionShutDown })
  else
    match s.events.front env.mailboxOrder with
    | none => some (s, { code := .timedOut })
    | some json =>
        if !copyBuffer env json.isEmpty then
          some (s.fail .allocationLimit "The event response could not be allocated.")
        else (s.popEvent env json).map fun s => (s, { code := .ok, output := .text json })

def ltkitSessionNextEvent (s : Session) (env : Environment) (timeoutMs : Int) :
    Option (Session × Option Response) :=
  if timeoutMs < 0 then some (s, some { code := .invalidArgument })
  else if s.nextEventWoken env s.wakeGeneration then (s.resumeNextEvent env).map returning
  else some (s, none)

/-! ## The calls that do not wait -/

def ltkitSessionSelectFiles (s : Session) (env : Environment) (id : String) (indexes : List Int)
    (primary : Int) : Option (Session × Response) :=
  if 100000 < indexes.length ∨ primary < -1 then some (s, { code := .invalidArgument })
  else s.onActive env id "" fun value => selectFiles env value indexes primary

def ltkitSessionSetFilePriority (s : Session) (env : Environment) (id : String) (fileIndex : Int)
    (priority : Nat) : Option (Session × Response) :=
  if fileIndex < 0 ∨ 7 < priority then some (s, { code := .invalidArgument })
  else s.onActive env id "" fun value => setFilePriority env value fileIndex priority

def ltkitSessionSetPiecePriority (s : Session) (env : Environment) (id : String)
    (pieceIndex : Int) (priority : Nat) : Option (Session × Response) :=
  if pieceIndex < 0 ∨ 7 < priority then some (s, { code := .invalidArgument })
  else s.onActive env id "" fun value => setPiecePriority env value pieceIndex priority

def ltkitSessionStart (s : Session) (env : Environment) (id : String) :
    Option (Session × Response) :=
  s.onActive env id "" fun value => (value, [.command (.resume value.handle)], .ok .none)

def ltkitSessionPause (s : Session) (env : Environment) (id : String) :
    Option (Session × Response) :=
  s.onActive env id "" fun value => (value, [.command (.pause value.handle)], .ok .none)

def ltkitSessionStatus (s : Session) (env : Environment) (id : String) : Session × Response :=
  match s.jobs.lookup id with
  | none => s.fail .invalidIdentifier "The torrent identifier does not exist."
  | some value =>
      let status :=
        if value.stopped then value.finalStatus.getD (env.status value.handle)
        else env.status value.handle
      s.reply env "The status response could not be allocated."
        (.ok (.text (statusJson status value.stopped)))

/-- The elements of a `std::set`, in the order of its iterators. -/
def ascending {α : Type} [LinearOrder α] (set : Finset α) : List α := set.sort (· ≤ ·)

/-- The text of `ltkit_session_pieces`. -/
def piecesJson (env : Environment) (value : Job) (info : TorrentInfo) : String :=
  let priorities := env.getPiecePriorities value.handle
  let availability := env.pieceAvailability value.handle
  "\x7b\"completed\":["
    ++ commaJoin ((List.range info.numPieces).map fun i =>
      boolText (env.havePiece value.handle i))
    ++ "],\"availability\":["
    ++ commaJoin ((List.range priorities.length).map fun i =>
      toString ((availability[i]?).getD 0))
    ++ "],\"priorities\":[" ++ commaJoin (priorities.map toString)
    ++ "],\"deadlinePieceIndexes\":["
    ++ commaJoin ((ascending value.deadlinePieces).map toString) ++ "]\x7d"

def ltkitSessionPieces (s : Session) (env : Environment) (id : String) :
    Option (Session × Response) :=
  s.onActive env id "The piece response could not be allocated." fun value =>
    match env.torrentFile value.handle with
    | none => (value, [], .fail .metadataUnavailable "Torrent metadata is unavailable.")
    | some info => (value, [], .ok (.text (piecesJson env value info)))

/-- Eight pieces, lowest index in the lowest bit. -/
def completionByte (env : Environment) (handle : Handle) (count i : Nat) : UInt8 :=
  (List.range 8).foldl
    (fun byte bit =>
      if i * 8 + bit < count ∧ env.havePiece handle (i * 8 + bit) then byte ||| (1 <<< bit.toUInt8)
      else byte) 0

def ltkitSessionPieceCompletion (s : Session) (env : Environment) (id : String) :
    Option (Session × Response) :=
  s.onActive env id "The piece completion response could not be allocated." fun value =>
    match env.torrentFile value.handle with
    | none => (value, [], .fail .metadataUnavailable "Torrent metadata is unavailable.")
    | some info =>
        let count := info.numPieces
        (value, [], .ok (.bitset count
          ((List.range ((count + 7) / 8)).map (completionByte env value.handle count))))

def ltkitSessionUpdateStreamingWindow (s : Session) (env : Environment) (id : String)
    (fileIndex byteOffset criticalBytes warmBytes consumptionBytesPerSecond : Int)
    (prioritizeEdges : Bool) : Option (Session × Response) :=
  if fileIndex < 0 ∨ byteOffset < 0 ∨ criticalBytes ≤ 0 ∨ warmBytes < criticalBytes
      ∨ consumptionBytesPerSecond ≤ 0 then
    some (s, { code := .invalidArgument })
  else
    s.onActive env id "The streaming response could not be allocated." fun value =>
      updateStreamingWindow env value fileIndex byteOffset criticalBytes warmBytes
        consumptionBytesPerSecond prioritizeEdges

def ltkitSessionClearStreamingWindow (s : Session) (env : Environment) (id : String) :
    Option (Session × Response) :=
  s.onActive env id "" fun value => clearStreamingWindow env value

def ltkitSessionRemove (s : Session) (id : String) (deleteFiles : Bool) : Session × Response :=
  match s.jobs.lookup id with
  | none => (s, { code := .ok })
  | some value =>
      if value.checkpoint.active then
        s.fail .nativeFailure "The torrent cannot be removed while a checkpoint is pending."
      else
        let s :=
          if value.stopped then s else s.record (.command (.removeTorrent value.handle deleteFiles))
        ({ s with events := s.events.retire id, jobs := s.jobs.erase id }, { code := .ok })

def ltkitSessionTakeLastError (s : Session) (env : Environment) : Session × Response :=
  let cleared := { s with lastError := "" }
  if copyBuffer env s.lastError.isEmpty then
    (cleared, { code := .ok, output := .text s.lastError })
  else (cleared, { code := .allocationLimit })

def ltkitSessionWake (s : Session) : Session :=
  { s with wakeGeneration := s.wakeGeneration + 1 }

/-! ## Calls -/

/-- A call up to its wait, or to its end. -/
def enter (s : Session) (env : Environment) : Api → Option (Session × Option Response)
  | .add request => (s.ltkitSessionAdd env request).map returning
  | .metadata id timeoutMs => s.ltkitSessionMetadata env id timeoutMs
  | .selectFiles id indexes primary =>
      (s.ltkitSessionSelectFiles env id indexes primary).map returning
  | .setFilePriority id fileIndex priority =>
      (s.ltkitSessionSetFilePriority env id fileIndex priority).map returning
  | .setPiecePriority id pieceIndex priority =>
      (s.ltkitSessionSetPiecePriority env id pieceIndex priority).map returning
  | .start id => (s.ltkitSessionStart env id).map returning
  | .pause id => (s.ltkitSessionPause env id).map returning
  | .status id => some (returning (s.ltkitSessionStatus env id))
  | .pieces id => (s.ltkitSessionPieces env id).map returning
  | .pieceCompletion id => (s.ltkitSessionPieceCompletion env id).map returning
  | .updateStreamingWindow id fileIndex byteOffset criticalBytes warmBytes rate edges =>
      (s.ltkitSessionUpdateStreamingWindow env id fileIndex byteOffset criticalBytes warmBytes
        rate edges).map returning
  | .clearStreamingWindow id => (s.ltkitSessionClearStreamingWindow env id).map returning
  | .checkpoint id flush timeoutMs => s.ltkitSessionCheckpoint env id flush timeoutMs
  | .remove id deleteFiles => some (returning (s.ltkitSessionRemove id deleteFiles))
  | .nextEvent timeoutMs => s.ltkitSessionNextEvent env timeoutMs
  | .takeLastError => some (returning (s.ltkitSessionTakeLastError env))
  | .wake => some (s.ltkitSessionWake, some { code := .ok })

/-- The rest of a call that waits; `generation` is the wake generation it has sampled. -/
def resume (s : Session) (env : Environment) (generation : Nat) : Api → Option (Session × Response)
  | .metadata id _ => s.resumeMetadata env id generation
  | .checkpoint id _ _ => s.resumeCheckpoint env id generation
  | .nextEvent _ => s.resumeNextEvent env
  | _ => none

end Session

/-! ## The session and its callers -/

/-- A call that waits on the condition variable. -/
structure Wait where
  api : Api
  generation : Nat
  deriving DecidableEq, Repr

/-- The session, and the calls that wait in it. -/
structure World where
  session : Session := {}
  calls : CallId → Option Wait := fun _ => none

/-- One critical section. -/
inductive Step where
  /-- The alert thread handles one alert. -/
  | alert (env : Environment) (alert : Alert)
  /-- Thread `c` makes a call. -/
  | call (env : Environment) (c : CallId) (api : Api)
  /-- The wait of thread `c` ends, because its predicate holds or because it timed out. -/
  | resume (env : Environment) (c : CallId)
  /-- The critical section of `ltkit_session_destroy`. -/
  | destroy

namespace World

/-- The call of thread `c` returns. -/
def returned (w : World) (c : CallId) (api : Api) (r : Session × Response) : World :=
  { session := r.1.record (.returned c api r.2), calls := Function.update w.calls c none }

/-- One critical section; `none` when it cannot happen now. -/
def step (w : World) : Step → Option World
  | .alert env alert =>
      if w.session.shuttingDown || !w.session.iteratedBy env then none
      else (w.session.handleAlert env alert).map fun s => { w with session := s }
  | .call env c api =>
      if (w.calls c).isSome || !w.session.iteratedBy env then none
      else
        ((w.session.record (.called c api)).enter env api).map fun r =>
          match r.2 with
          | some response => w.returned c api (r.1, response)
          | none =>
              { session := r.1
                calls := Function.update w.calls c (some ⟨api, r.1.wakeGeneration⟩) }
  | .resume env c =>
      match w.calls c with
      | none => none
      | some wait =>
          if !w.session.iteratedBy env then none
          else (w.session.resume env wait.generation wait.api).map (w.returned c wait.api)
  | .destroy => some { w with session := { w.session with shuttingDown := true } }

/-- A call that goes on has waited, and returns. -/
theorem step_resume {w w' : World} {env : Environment} {c : CallId}
    (h : w.step (.resume env c) = some w') :
    ∃ wait res, w.calls c = some wait ∧
      w.session.resume env wait.generation wait.api = some res ∧
      w' = w.returned c wait.api res := by
  simp only [step] at h
  split at h
  · cases h
  · next wait hwait =>
      simp only [Option.ite_none_left_eq_some, Option.map_eq_some_iff] at h
      obtain ⟨_, res, hres, rfl⟩ := h
      exact ⟨wait, res, hwait, hres, rfl⟩

/-- The state after a run that goes through. -/
def after (ls : List Step) : World := (Lts.exec step {} ls).getD {}

theorem exec_after {ls : List Step} (h : (Lts.exec step {} ls).isSome = true) :
    Lts.exec step {} ls = some (after ls) :=
  Lts.exec_getD h

end World

/-- A request for the torrent of `sampleEnvironment`, with its metadata. -/
def sampleRequest (identifier : String := "a") : AddRequest where
  identifier
  sourceKind := 1
  source := [100]
  downloadDirectory := "/d"
  selectedFiles := [0]
  hasFileSelection := true

/-- The session after some calls, all in one environment. -/
def sessionAfter (env : Environment) (calls : List Api) : Session :=
  calls.foldl (fun s api => ((s.enter env api).map Prod.fst).getD s) {}

/-- The next call answers. -/
theorem sessionAfter_answers {env : Environment} {calls : List Api} {api : Api} {code : Code}
    (h : ((sessionAfter env calls).enter env api).any
      (fun r => decide (r.2.map Response.code = some code)) = true) :
    ∃ response, (sessionAfter env calls).enter env api =
      some (sessionAfter env (calls ++ [api]), some response) ∧ response.code = code := by
  obtain ⟨⟨s, response⟩, hr, hcode⟩ := (Option.any_eq_true _ _).mp h
  obtain ⟨response, rfl, hok⟩ := Option.map_eq_some_iff.mp (of_decide_eq_true hcode)
  refine ⟨response, ?_, hok⟩
  have hafter : sessionAfter env (calls ++ [api]) =
      (((sessionAfter env calls).enter env api).map Prod.fst).getD (sessionAfter env calls) :=
    List.foldl_append
  rw [hafter, hr]
  rfl

end LibtorrentKit
