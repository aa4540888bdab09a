/-
  The Swift side of a session: `NativeSessionHandle`, the two instances of
  `NativeSessionExecutor`, `NativeEventReader`, and the shutdown of `TorrentSession`.

  One native session is shared by two serial queues. An operation (`Op`) is one call of
  `perform`: its block goes through the phases of `OpPhase`, each the part of `perform` between
  two accesses to a lock or to the native session. `native.wake()` takes the lock of the handle
  and holds it while `ltkit_session_wake` runs; whoever is about to call it is a `Waker`.
  `Host.step` takes one such part of whatever thread comes next.

  Every native call is a critical section, or two, of `World`. An operation `x` calls as thread
  `x + 1`, the wakes as thread `0`: the lock admits one of them at a time.

  `runs`, `resumes` and `yielded` of an operation and `destroys` of the host are not in the
  source. They record what has happened, and no function of the model reads them.
-/
import LibtorrentKit.Lib.SerialQueue
import LibtorrentKit.Session.Api

namespace LibtorrentKit

/-! ## Native calls -/

namespace World

/-- Thread `c` makes a call, which returns or waits. -/
def call (w : World) (env : Environment) (c : CallId) (api : Api) :
    Option (World × Option Response) :=
  match w.step (.call env c api), (w.session.record (.called c api)).enter env api with
  | some w', some r => some (w', r.2)
  | _, _ => none

/-- The call in which thread `c` waits returns. -/
def finish (w : World) (env : Environment) (c : CallId) : Option (World × Response) :=
  match w.calls c with
  | none => none
  | some wait =>
      match w.step (.resume env c), w.session.resume env wait.generation wait.api with
      | some w', some r => some (w', r.2)
      | _, _ => none

end World

/-! ## Operations -/

/-- `NativeSessionExecutor.Semantics`. -/
inductive Semantics where
  | cancellable
  | mutation
  deriving DecidableEq, Repr

/-- The executor of `TorrentSession` and the one of its event reader. -/
inductive Lane where
  | native
  | events
  deriving DecidableEq, Repr

/-- What the closure of an operation yields: the answer of its native call, with the one of
    `ltkit_session_take_last_error` when it asks for it. The event reader's closure makes no
    call once the reader is closed. -/
inductive ClosureResult where
  | nothing
  | native (response : Response) (lastError : Option Response)
  deriving DecidableEq, Repr

/-- What `perform` returns or throws. -/
inductive Outcome where
  | cancellationError
  | sessionShutDown
  | result (result : ClosureResult)
  deriving DecidableEq, Repr

/-- Where an operation stands. -/
inductive OpPhase where
  /-- `Task.checkCancellation()` has passed. -/
  | submitted
  | queued
  /-- `begin()` has returned true. -/
  | begun
  /-- `native.optionalPointer` has been read. -/
  | holding
  /-- The closure is about to make its native call. -/
  | calling
  | waiting
  | answered (response : Response)
  /-- The closure asks for the last error. -/
  | reporting (response : Response)
  /-- The event reader's closure has closed the reader and is about to wake. -/
  | closing (response : Response)
  | executed (result : ClosureResult)
  /-- It is decided what the continuation is resumed with. -/
  | resuming (outcome : Outcome)
  | resumed
  | finished
  deriving DecidableEq, Repr

/-- The cancellation handler of an operation: `waking` when it is about to call
    `native.wake()`. -/
inductive Handler where
  | idle
  | waking
  | done
  deriving DecidableEq, Repr

/-- One call of `perform`, with its `NativeOperationCancellation`. -/
structure Op where
  lane : Lane
  semantics : Semantics
  api : Api
  phase : OpPhase := .submitted
  cancelled : Bool := false
  running : Bool := false
  handler : Handler := .idle
  outcome : Option Outcome := none
  returned : Bool := false
  runs : Nat := 0
  yielded : Option ClosureResult := none
  resumes : Nat := 0
  deriving DecidableEq, Repr

/-- The closure returns or throws. -/
def Op.yield (op : Op) (result : ClosureResult) : Op :=
  { op with phase := .executed result, yielded := some result }

/-- The check after execution: what the continuation is resumed with. -/
def Op.decide (op : Op) (result : ClosureResult) : Outcome :=
  if op.semantics = .cancellable ∧ op.cancelled = true then .cancellationError else .result result

abbrev OpId := Nat

/-! ## The host -/

/-- Who calls `native.wake()`. -/
inductive Waker where
  | handler (x : OpId)
  /-- A caller of `NativeEventReader.close()`. -/
  | closer
  /-- The closure of `x`, inside `close()`. -/
  | closing (x : OpId)
  | shutdown
  deriving DecidableEq, Repr

/-- `NativeSessionHandle.storage`, and what becomes of the pointer. -/
inductive Storage where
  | held
  /-- `nil`; the pointer is about to be passed to `ltkit_session_destroy`. -/
  | taken
  /-- `nil`. -/
  | destroyed
  deriving DecidableEq, Repr

/-- How far `TorrentSession.shutdown()` is. -/
inductive Shutdown where
  | idle
  /-- `isShutDown` is set. -/
  | started
  /-- The event reader is closed. -/
  | closing
  | closed
  /-- The event lane drains. -/
  | draining
  | waking
  | woken
  | destroying
  | finished
  deriving DecidableEq, Repr

inductive Block where
  | op (x : OpId)
  | drain
  | destroy
  deriving DecidableEq, Repr

structure Host where
  world : World := {}
  storage : Storage := .held
  destroys : Nat := 0
  lock : Option Waker := none
  closed : Bool := false
  lanes : Lane → SerialQueue Block := fun _ => {}
  ops : Finmap (fun _ : OpId => Op) := ∅
  /-- Callers of `close()` that are about to wake. -/
  closers : Nat := 0
  shutdown : Shutdown := .idle
  /-- The `TorrentSession` is gone. -/
  released : Bool := false
  /-- The `NativeSessionHandle` is gone. -/
  gone : Bool := false

namespace Host

inductive Step where
  /-- `perform` is called, and the task is not cancelled yet. -/
  | submit (x : OpId) (lane : Lane) (semantics : Semantics) (api : Api)
  | enqueue (x : OpId)
  /-- The task of `x` is cancelled: its handler runs up to `native.wake()`. -/
  | cancel (x : OpId)
  /-- The block at the head of a lane goes on. -/
  | run (env : Environment) (lane : Lane)
  /-- `native.wake()` takes the lock. -/
  | wake (waker : Waker)
  /-- `ltkit_session_wake` has run. -/
  | woke (env : Environment)
  /-- `perform` returns to its caller. -/
  | returns (x : OpId)
  /-- `NativeEventReader.close()`, up to its wake. -/
  | close
  /-- `TorrentSession.shutdown()` is called. -/
  | shutdown
  /-- The call that shuts the session down goes on. -/
  | advance
  | alert (env : Environment) (alert : Alert)
  /-- `TorrentSession.deinit`. -/
  | release
  /-- `NativeSessionHandle.deinit`. -/
  | deinit

def setOp (s : Host) (x : OpId) (op : Op) : Host := { s with ops := s.ops.insert x op }

/-- Add a block to a lane. -/
def async (s : Host) (lane : Lane) (b : Block) : Host :=
  { s with lanes := Function.update s.lanes lane ((s.lanes lane).async b) }

/-- The block at the head of a lane is done. -/
def pop (s : Host) (lane : Lane) : Host :=
  { s with lanes := Function.update s.lanes lane (s.lanes lane).pop }

@[simp] theorem setOp_ops (s : Host) (x : OpId) (op : Op) :
    (s.setOp x op).ops = s.ops.insert x op := rfl
@[simp] theorem setOp_lanes (s : Host) (x : OpId) (op : Op) : (s.setOp x op).lanes = s.lanes := rfl
@[simp] theorem setOp_shutdown (s : Host) (x : OpId) (op : Op) :
    (s.setOp x op).shutdown = s.shutdown := rfl
@[simp] theorem async_ops (s : Host) (lane : Lane) (b : Block) : (s.async lane b).ops = s.ops := rfl
@[simp] theorem async_shutdown (s : Host) (lane : Lane) (b : Block) :
    (s.async lane b).shutdown = s.shutdown := rfl
@[simp] theorem pop_ops (s : Host) (lane : Lane) : (s.pop lane).ops = s.ops := rfl
@[simp] theorem pop_shutdown (s : Host) (lane : Lane) : (s.pop lane).shutdown = s.shutdown := rfl

theorem async_lanes (s : Host) (lane l : Lane) (b : Block) :
    (s.async lane b).lanes l = if l = lane then (s.lanes l).async b else s.lanes l := by
  by_cases hl : l = lane
  · subst hl
    simp [async]
  · simp [async, hl]

theorem pop_lanes (s : Host) (lane l : Lane) :
    (s.pop lane).lanes l = if l = lane then (s.lanes l).pop else s.lanes l := by
  by_cases hl : l = lane
  · subst hl
    simp [pop]
  · simp [pop, hl]

/-- The calls that `TorrentSession` makes on its own executor. -/
def isOperation : Api → Bool
  | .nextEvent _ => false
  | .takeLastError => false
  | .wake => false
  | _ => true

/-- `perform` up to the point where its block is about to be added. The event reader calls it
    in `next()`, after it has found itself open. -/
def submit (s : Host) (x : OpId) (op : Op) : Option Host :=
  let may := match op.lane with
    | .native => !s.released && isOperation op.api
    | .events => !s.closed && decide (op.semantics = .cancellable)
        && decide (op.api = .nextEvent 500)
  if x ∈ s.ops ∨ may = false then none else some (s.setOp x op)

/-- The closure of the event reader, once its native call has returned. -/
def readEvent (s : Host) (x : OpId) (op : Op) (response : Response) : Host :=
  if response.code = .sessionShutDown then
    { s with closed := true }.setOp x { op with phase := .closing response }
  else s.setOp x (op.yield (.native response none))

/-- The block of an operation goes on. -/
def runOp (s : Host) (env : Environment) (x : OpId) (op : Op) : Option Host :=
  match op.phase with
  | .submitted => none
  | .queued =>
      if op.cancelled then some (s.setOp x { op with phase := .resuming .cancellationError })
      else some (s.setOp x { op with running := true, phase := .begun })
  | .begun =>
      if s.lock.isSome then none
      else if s.storage = .held then some (s.setOp x { op with phase := .holding })
      else some (s.setOp x { op with phase := .resuming .sessionShutDown })
  | .holding =>
      if op.lane = .events ∧ s.closed = true then
        some (s.setOp x ({ op with runs := op.runs + 1 }.yield .nothing))
      else some (s.setOp x { op with runs := op.runs + 1, phase := .calling })
  | .calling =>
      (s.world.call env (x + 1) op.api).map fun r =>
        { s with world := r.1 }.setOp x { op with phase := r.2.elim .waiting .answered }
  | .waiting =>
      (s.world.finish env (x + 1)).map fun r =>
        { s with world := r.1 }.setOp x { op with phase := .answered r.2 }
  | .answered response =>
      match op.lane with
      | .native =>
          if response.code = .ok then
            some (s.setOp x (op.yield (.native response none)))
          else some (s.setOp x { op with phase := .reporting response })
      | .events => some (s.readEvent x op response)
  | .reporting response =>
      (s.world.call env (x + 1) .takeLastError).map fun r =>
        { s with world := r.1 }.setOp x (op.yield (.native response r.2))
  | .closing _ => none
  | .executed result =>
      some (s.setOp x { op with phase := .resuming (op.decide result) })
  | .resuming outcome =>
      some (s.setOp x { op with
        outcome := some outcome, resumes := op.resumes + 1, phase := .resumed })
  | .resumed =>
      some ((s.setOp x { op with running := false, phase := .finished }).pop op.lane)
  | .finished => none

/-- The block of `shutdown()` goes on: `native.destroy()`. -/
def runDestroy (s : Host) : Option Host :=
  match s.storage with
  | .held => if s.lock.isSome then none else some { s with storage := .taken }
  | .taken =>
      (s.world.step .destroy).map fun w =>
        { s with
          world := w
          storage := .destroyed
          destroys := s.destroys + 1
          shutdown := .finished }.pop .native
  | .destroyed =>
      if s.lock.isSome then none else some ({ s with shutdown := .finished }.pop .native)

def run (s : Host) (env : Environment) (lane : Lane) : Option Host :=
  match (s.lanes lane).queue.head? with
  | none => none
  | some (.op x) => (s.ops.lookup x).bind fun op => s.runOp env x op
  | some .drain => some ({ s with shutdown := .waking }.pop lane)
  | some .destroy => s.runDestroy

/-- The waker is about to call `native.wake()`. -/
def isWaking (s : Host) : Waker → Bool
  | .handler x => (s.ops.lookup x).any fun op => decide (op.handler = .waking)
  | .closer => decide (0 < s.closers)
  | .closing x => (s.ops.lookup x).any fun op =>
      match op.phase with
      | .closing _ => true
      | _ => false
  | .shutdown => decide (s.shutdown = .closing) || decide (s.shutdown = .waking)

/-- `native.wake()` returns. -/
def woken (s : Host) : Waker → Host
  | .handler x =>
      match s.ops.lookup x with
      | some op => if op.handler = .waking then s.setOp x { op with handler := .done } else s
      | none => s
  | .closer => { s with closers := s.closers - 1 }
  | .closing x =>
      match s.ops.lookup x with
      | some op =>
          match op.phase with
          | .closing response => s.setOp x (op.yield (.native response none))
          | _ => s
      | none => s
  | .shutdown =>
      match s.shutdown with
      | .closing => { s with shutdown := .closed }
      | .waking => { s with shutdown := .woken }
      | _ => s

/-- `NativeEventReader.close()` up to its wake. -/
def close (s : Host) : Host := { s with closed := true, closers := s.closers + 1 }

/-- The task of `x` is cancelled. -/
def cancel (s : Host) (x : OpId) (op : Op) : Host :=
  s.setOp x { op with
    cancelled := true
    handler := if op.running = true ∧ op.semantics = .cancellable then .waking else .done }

/-- The outcome reaches the caller of `perform`; `next()` closes the reader on an error. -/
def returns (s : Host) (x : OpId) (op : Op) : Host :=
  let s := s.setOp x { op with returned := true }
  if op.lane = .events ∧ op.outcome = some .sessionShutDown then s.close else s

/-- The next part of `shutdown()`, where it waits for neither a lane nor a wake. -/
def advance (s : Host) : Option Host :=
  match s.shutdown with
  | .started => some { s with closed := true, shutdown := .closing }
  | .closed => some ({ s with shutdown := .draining }.async .events .drain)
  | .woken => some ({ s with shutdown := .destroying }.async .native .destroy)
  | _ => none

def shutdownRests (s : Host) : Bool :=
  decide (s.shutdown = .idle) || decide (s.shutdown = .finished)

/-- A call of the actor keeps it alive until it returns. -/
def isReferenced (s : Host) : Bool :=
  !s.shutdownRests || decide (∃ x ∈ s.ops.keys, (s.ops.lookup x).any fun op =>
    decide (op.lane = .native) && !op.returned)

/-- So does everything that has captured the handle. The event stream is not part of the host:
    its reference is `EventStream.isReferenced`. -/
def isHandleReferenced (s : Host) : Bool :=
  !s.released || !s.shutdownRests || s.lock.isSome || decide (0 < s.closers)
    || decide ((s.lanes .native).queue ≠ []) || decide ((s.lanes .events).queue ≠ [])
    || decide (∃ x ∈ s.ops.keys, (s.ops.lookup x).any fun op =>
      !op.returned || decide (op.handler = .waking))

/-- `NativeSessionHandle.deinit`. -/
def deinit (s : Host) : Option Host :=
  if s.storage = .held then
    (s.world.step .destroy).map fun w =>
      { s with world := w, storage := .destroyed, destroys := s.destroys + 1, gone := true }
  else some { s with gone := true }

/-- One part of a thread; `none` when it cannot happen now. -/
def step (s : Host) : Step → Option Host
  | .submit x lane semantics api => s.submit x { lane, semantics, api }
  | .enqueue x =>
      (s.ops.lookup x).bind fun op =>
        if op.phase = .submitted then
          some ((s.setOp x { op with phase := .queued }).async op.lane (.op x))
        else none
  | .cancel x =>
      (s.ops.lookup x).bind fun op =>
        if op.cancelled || op.returned then none else some (s.cancel x op)
  | .run env lane => s.run env lane
  | .wake waker =>
      if s.lock.isSome || !s.isWaking waker then none
      else if s.storage = .held then some { s with lock := some waker }
      else some (s.woken waker)
  | .woke env =>
      s.lock.bind fun waker =>
        (s.world.call env 0 .wake).map fun r =>
          { s with world := r.1, lock := none }.woken waker
  | .returns x =>
      (s.ops.lookup x).bind fun op =>
        if op.returned || op.outcome.isNone then none else some (s.returns x op)
  | .close => if s.gone then none else some s.close
  | .shutdown =>
      if s.released then none
      else if s.shutdown = .idle then some { s with shutdown := .started } else some s
  | .advance => s.advance
  | .alert env alert =>
      if s.storage = .destroyed then none
      else (s.world.step (.alert env alert)).map fun w => { s with world := w }
  | .release =>
      if s.released || s.isReferenced then none else some ({ s with released := true }.close)
  | .deinit => if s.gone || s.isHandleReferenced then none else s.deinit

/-- The state after a run that goes through. -/
def after (ls : List Step) : Host := (Lts.exec step {} ls).getD {}

theorem exec_after {ls : List Step} (h : (Lts.exec step {} ls).isSome = true) :
    Lts.exec step {} ls = some (after ls) :=
  Lts.exec_getD h

end Host

end LibtorrentKit
