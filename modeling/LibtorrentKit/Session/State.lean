/-
  The state of `ltkit_session`: result codes, `DiskCheckpoint`, jobs, and the session with
  its mailbox.

  `Session.trace` is not in the source. It records, in the order in which they happen, the
  calls made of the session, the commands it issues to libtorrent, the rounds its
  checkpoints begin, the alerts it handles and what goes through its mailbox. No function of
  the model reads it.

  The functions of the source that work on one `job` return the new job and the `Action`s
  they perform on the way, in order; `Session.performAll` carries them out.
-/
import LibtorrentKit.Mailbox.Refinement
import LibtorrentKit.Payload

namespace LibtorrentKit

/-- The result codes `LTKIT_OK`, `LTKIT_ERROR_…`. -/
inductive Code where
  | ok
  | unknown
  | invalidArgument
  | invalidSource
  | invalidIdentifier
  | duplicateIdentifier
  | metadataUnavailable
  | invalidFileIndex
  | invalidPieceIndex
  | invalidOffset
  | corruptResumeData
  | timedOut
  | nativeFailure
  | sessionShutDown
  | allocationLimit
  | pathViolation
  | completionFailed
  deriving DecidableEq, Repr

/-! ## `DiskCheckpoint` -/

/-- `DiskCheckpoint::Phase`. -/
inductive Phase where
  | idle
  | flushing
  | saving
  | succeeded
  | failed
  deriving DecidableEq, Repr

/-- `DiskCheckpoint`: one native request at a time. Each operation that may refuse returns
    whether it was accepted. -/
structure DiskCheckpoint where
  phase : Phase := .idle
  deriving DecidableEq, Repr

namespace DiskCheckpoint

def pending (c : DiskCheckpoint) : Bool :=
  decide (c.phase = .flushing) || decide (c.phase = .saving)

def idle (c : DiskCheckpoint) : Bool := decide (c.phase = .idle)

def begin (c : DiskCheckpoint) (flush : Bool) : Bool × DiskCheckpoint :=
  if c.phase ≠ .idle then (false, c) else (true, ⟨if flush then .flushing else .saving⟩)

def cacheFlushed (c : DiskCheckpoint) : Bool × DiskCheckpoint :=
  if c.phase ≠ .flushing then (false, c) else (true, ⟨.saving⟩)

def resumeSaved (c : DiskCheckpoint) : Bool × DiskCheckpoint :=
  if c.phase ≠ .saving then (false, c) else (true, ⟨.succeeded⟩)

def fail (c : DiskCheckpoint) : Bool × DiskCheckpoint :=
  if !c.pending then (false, c) else (true, ⟨.failed⟩)

theorem pending_iff {c : DiskCheckpoint} :
    c.pending = true ↔ c.phase = .flushing ∨ c.phase = .saving := by
  simp [pending]

theorem idle_iff {c : DiskCheckpoint} : c.idle = true ↔ c.phase = .idle := by
  simp [idle]

end DiskCheckpoint

/-! ## Jobs -/

/-- `ltkit_session::checkpoint_state`. -/
structure CheckpointState where
  active : Bool := false
  barrier : DiskCheckpoint := {}
  done : Bool := false
  error : Code := .ok
  data : Bytes := []
  deriving DecidableEq, Repr

/-- `ltkit_session::job`. -/
structure Job where
  handle : Handle
  desiredFiles : List Int := []
  filePriorities : List Priority := []
  piecePriorities : List Priority := []
  primaryFile : Int := -1
  metadataReady : Bool := false
  completionStops : Bool := true
  completionCheckpoint : Bool := false
  completionWaiting : Bool := false
  completionRechecked : Bool := false
  finalResumeData : Bytes := []
  finalPayloads : List SelectedPayload := []
  stopped : Bool := false
  finalStatus : Option TorrentStatus := none
  finalMetadata : String := ""
  deadlinePieces : Finset Int := ∅
  checkpoint : CheckpointState := {}
  deriving DecidableEq

/-! ## Calls and the trace -/

/-- The arguments of `ltkit_session_add`. -/
structure AddRequest where
  identifier : String
  sourceKind : Int
  source : Bytes
  resumeData : Bytes := []
  downloadDirectory : String
  selectedFiles : List Int := []
  hasFileSelection : Bool := false
  primaryFile : Int := -1
  beginsPaused : Bool := false
  downloadLimit : Int := 0
  uploadLimit : Int := 0
  completionPolicy : Int := 0
  deriving DecidableEq, Repr

/-- A call of the C interface, with its arguments other than the session and the output. -/
inductive Api where
  | add (request : AddRequest)
  | metadata (id : String) (timeoutMs : Int)
  | selectFiles (id : String) (indexes : List Int) (primary : Int)
  | setFilePriority (id : String) (fileIndex : Int) (priority : Nat)
  | setPiecePriority (id : String) (pieceIndex : Int) (priority : Nat)
  | start (id : String)
  | pause (id : String)
  | status (id : String)
  | pieces (id : String)
  | pieceCompletion (id : String)
  | updateStreamingWindow (id : String) (fileIndex byteOffset criticalBytes warmBytes
      consumptionBytesPerSecond : Int) (prioritizeEdges : Bool)
  | clearStreamingWindow (id : String)
  | checkpoint (id : String) (flush : Bool) (timeoutMs : Int)
  | remove (id : String) (deleteFiles : Bool)
  | nextEvent (timeoutMs : Int)
  | takeLastError
  | wake
  deriving DecidableEq, Repr

/-- What a call hands back besides its code. -/
inductive Output where
  | none
  | text (value : String)
  | bytes (value : Bytes)
  | bitset (count : Nat) (value : Bytes)
  deriving DecidableEq, Repr

structure Response where
  code : Code
  output : Output := .none
  deriving DecidableEq, Repr

/-- A call in progress: the thread that makes it. -/
abbrev CallId := Nat

/-- One entry of the trace. -/
inductive Entry where
  /-- Thread `c` makes the call `api`. -/
  | called (c : CallId) (api : Api)
  /-- The call of thread `c` returns. -/
  | returned (c : CallId) (api : Api) (response : Response)
  | command (command : Command)
  /-- `start_checkpoint` for `id`; `completion` is the job's `completion_checkpoint`. -/
  | began (id : String) (handle : Handle) (flush completion : Bool)
  /-- The alert loop hands an alert to the job of `id`, or passes it over. -/
  | alert (id : Option String) (alert : Alert)
  /-- The barrier of `id` accepts the reply `alert`. -/
  | accepted (id : String) (alert : Alert)
  /-- A finished alert makes `id` wait for its completion. -/
  | completing (id : String) (handle : Handle) (desired : List Int)
  | mail (event : MailEvent)
  /-- An error with payload `json` is merged into the unread run `stored`. -/
  | merged (id stored json : String)
  deriving DecidableEq, Repr

/-! ## The session -/

/-- `ltkit_session`, without its threads. -/
structure Session where
  jobs : Finmap (fun _ : String => Job) := ∅
  events : EventMailbox := {}
  lastError : String := ""
  shuttingDown : Bool := false
  wakeGeneration : Nat := 0
  trace : List Entry := []

/-- What a function of the source does besides changing its `job`. -/
inductive Action where
  | command (command : Command)
  | began (handle : Handle) (flush completion : Bool)
  | accepted (alert : Alert)
  | completing (handle : Handle) (desired : List Int)
  | enqueue (kind : Kind) (json : String)
  | status (json : String)
  deriving DecidableEq, Repr

namespace Session

def record (s : Session) (e : Entry) : Session := { s with trace := s.trace ++ [e] }

def setJob (s : Session) (id : String) (value : Job) : Session :=
  { s with jobs := s.jobs.insert id value }

/-- `set_error`. -/
def setError (s : Session) (value : String) : Session := { s with lastError := value }

/-- `fail`: record a message and return a code. -/
def fail (s : Session) (code : Code) (safeMessage : String) : Session × Response :=
  (s.setError safeMessage, { code })

/-- The trace entry for an error that goes into an unread run. -/
def mergedEntry (m : EventMailbox) (id : String) (kind : Kind) (json : String) : List Entry :=
  if kind = .error then
    (m.unreadError id).toList.map fun run => .merged id run.json json
  else []

/-- `enqueue`; `none` when the mailbox throws or has no defined behaviour. -/
def enqueue (s : Session) (env : Environment) (id : String) (kind : Kind) (json : String) :
    Option Session :=
  match s.events.critical env.alloc id kind json with
  | .ok events =>
      some { s with
        events
        trace := s.trace ++ mergedEntry s.events id kind json ++ [.mail (.submit id kind json)] }
  | .error _ => none

/-- `events.status`. -/
def publishStatus (s : Session) (id json : String) : Option Session :=
  match s.events.status id json with
  | .ok events => some { s with events }
  | .error _ => none

/-- Carry out an action on behalf of the job of `id`. -/
def perform (s : Session) (env : Environment) (id : String) : Action → Option Session
  | .command c => some (s.record (.command c))
  | .began handle flush completion => some (s.record (.began id handle flush completion))
  | .accepted alert => some (s.record (.accepted id alert))
  | .completing handle desired => some (s.record (.completing id handle desired))
  | .enqueue kind json => s.enqueue env id kind json
  | .status json => s.publishStatus id json

def performAll (s : Session) (env : Environment) (id : String) (actions : List Action) :
    Option Session :=
  actions.foldlM (fun s a => s.perform env id a) s

/-- `id_for`: the first job, in iteration order, that holds the handle. -/
def idFor (s : Session) (env : Environment) (handle : Handle) : Option String :=
  env.jobsOrder.find? fun id => (s.jobs.lookup id).any fun value => decide (value.handle = handle)

/-- The environment iterates over all of the session's maps. -/
def iteratedBy (s : Session) (env : Environment) : Bool :=
  decide (s.jobs.keys ⊆ env.jobsOrder.toFinset)
    && decide (s.events.jobs_.keys ⊆ env.mailboxOrder.toFinset)

end Session

/-- `copy_buffer`: an empty source needs no allocation. -/
def copyBuffer (env : Environment) (empty : Bool) : Bool := empty || env.malloc

end LibtorrentKit
