/-
  The life of one operation.

  `Op.Run` lists what its block can do next, `Op.Step` what any thread can do to it, and
  `Host.step_ops` shows that every step stays within them. `Op.Ok` is what always holds of an
  operation by itself: how its phase, its flags and its counts go together.
-/
import LibtorrentKit.Swift.Executor

namespace LibtorrentKit

/-! ## Phases -/

namespace OpPhase

/-- The block has been added, and is not done. -/
def inQueue : OpPhase → Bool
  | .submitted => false
  | .finished => false
  | _ => true

/-- The block is being executed. -/
def active : OpPhase → Bool
  | .submitted => false
  | .queued => false
  | .finished => false
  | _ => true

/-- The closure has not started, and it is not decided that it never will. -/
def early : OpPhase → Bool
  | .submitted => true
  | .queued => true
  | .begun => true
  | .holding => true
  | _ => false

/-- The closure is running. -/
def inClosure : OpPhase → Bool
  | .calling => true
  | .waiting => true
  | .answered _ => true
  | .reporting _ => true
  | .closing _ => true
  | _ => false

/-- The closure uses the pointer: it is inside a native call, or makes one next. -/
def usesPointer : OpPhase → Bool
  | .calling => true
  | .waiting => true
  | .reporting _ => true
  | _ => false

/-- How far the block is. -/
def rank : OpPhase → Nat
  | .submitted => 0
  | .queued => 1
  | .begun => 2
  | .holding => 3
  | .calling => 4
  | .waiting => 5
  | .answered _ => 6
  | .reporting _ => 7
  | .closing _ => 7
  | .executed _ => 8
  | .resuming _ => 9
  | .resumed => 10
  | .finished => 11

end OpPhase

/-! ## Steps of an operation -/

/-- What the block of an operation does next. -/
inductive Op.Run (op : Op) : Op → Prop
  | refuse (hphase : op.phase = .queued) (hcancelled : op.cancelled = true) :
      op.Run { op with phase := .resuming .cancellationError }
  | begin (hphase : op.phase = .queued) (hcancelled : op.cancelled = false) :
      op.Run { op with running := true, phase := .begun }
  | hold (hphase : op.phase = .begun) : op.Run { op with phase := .holding }
  | shutDown (hphase : op.phase = .begun) : op.Run { op with phase := .resuming .sessionShutDown }
  | skip (hphase : op.phase = .holding) (hlane : op.lane = .events) :
      op.Run ({ op with runs := op.runs + 1 }.yield .nothing)
  | start (hphase : op.phase = .holding) : op.Run { op with runs := op.runs + 1, phase := .calling }
  | wait (hphase : op.phase = .calling) : op.Run { op with phase := .waiting }
  | answer (response : Response) (hphase : op.phase = .calling ∨ op.phase = .waiting) :
      op.Run { op with phase := .answered response }
  | report (response : Response) (hphase : op.phase = .answered response)
      (hlane : op.lane = .native) : op.Run { op with phase := .reporting response }
  | close (response : Response) (hphase : op.phase = .answered response)
      (hlane : op.lane = .events) (hcode : response.code = .sessionShutDown) :
      op.Run { op with phase := .closing response }
  | yield (response : Response) (lastError : Option Response)
      (hphase : op.phase = .answered response ∨ op.phase = .reporting response) :
      op.Run (op.yield (.native response lastError))
  | decide (result : ClosureResult) (hphase : op.phase = .executed result) :
      op.Run { op with phase := .resuming (op.decide result) }
  | resume (outcome : Outcome) (hphase : op.phase = .resuming outcome) :
      op.Run { op with outcome := some outcome, resumes := op.resumes + 1, phase := .resumed }
  | finish (hphase : op.phase = .resumed) : op.Run { op with running := false, phase := .finished }

theorem OpPhase.inQueue_of_active {phase : OpPhase} (h : phase.active = true) :
    phase.inQueue = true := by
  cases phase <;> first | rfl | cases h

theorem Op.Run.kept {op op' : Op} (h : op.Run op') :
    op'.lane = op.lane ∧ op'.semantics = op.semantics ∧ op'.api = op.api := by
  cases h <;> exact ⟨rfl, rfl, rfl⟩

theorem Op.Run.active {op op' : Op} (h : op.Run op') (hphase : op'.phase ≠ .finished) :
    op'.phase.active = true := by
  cases h with
  | finish => exact absurd rfl hphase
  | _ => rfl

/-- What other threads do to an operation, and its own outside the block. -/
inductive Op.Touch (op : Op) : Op → Prop
  | enqueue (hphase : op.phase = .submitted) : op.Touch { op with phase := .queued }
  | cancel (hcancelled : op.cancelled = false) : op.Touch { op with
      cancelled := true
      handler := if op.running = true ∧ op.semantics = .cancellable then .waking else .done }
  | woken (hhandler : op.handler = .waking) : op.Touch { op with handler := .done }
  | closed (response : Response) (hphase : op.phase = .closing response) :
      op.Touch (op.yield (.native response none))
  | returns (houtcome : op.outcome.isSome = true) : op.Touch { op with returned := true }

theorem Op.Touch.kept {op op' : Op} (h : op.Touch op') :
    op'.lane = op.lane ∧ op'.semantics = op.semantics ∧ op'.api = op.api := by
  cases h <;> exact ⟨rfl, rfl, rfl⟩

/-- What any thread does to an operation. -/
def Op.Step (op op' : Op) : Prop := op.Run op' ∨ op.Touch op'

/-- What each lane is for. -/
def Op.Permitted (op : Op) : Prop :=
  match op.lane with
  | .native => Host.isOperation op.api = true
  | .events => op.api = .nextEvent 500

theorem Op.Permitted.not_wake {op : Op} (h : op.Permitted) : op.api ≠ .wake := by
  unfold Op.Permitted at h
  intro hwake
  rw [hwake] at h
  cases hlane : op.lane <;> rw [hlane] at h <;> cases h

namespace Host

/-- What the block of an operation does to the host. -/
structure RunOp (s s' : Host) (x : OpId) (op op' : Op) : Prop where
  run : op.Run op'
  ops : s'.ops = s.ops.insert x op'
  lanes : s'.lanes = if op'.phase = .finished then
      Function.update s.lanes op.lane (s.lanes op.lane).pop else s.lanes
  storage : s'.storage = s.storage
  lock : s'.lock = s.lock
  closers : s'.closers = s.closers
  shutdown : s'.shutdown = s.shutdown
  destroys : s'.destroys = s.destroys
  released : s'.released = s.released
  gone : s'.gone = s.gone
  world : op.phase.usesPointer = false → s'.world = s.world
  closed : s.closed = true → s'.closed = true
  /-- A block holds the pointer only while the storage does. -/
  holds : op.phase = .begun → op'.phase = .holding → s.storage = .held
  /-- The event reader's closure calls only when the reader is open. -/
  opens : op'.phase = .calling → op.lane = .events → s.closed = false

theorem runOp_spec {s s' : Host} {env : Environment} {x : OpId} {op : Op}
    (h : s.runOp env x op = some s') : ∃ op', RunOp s s' x op op' := by
  have hset : ∀ {w : World} {c : Bool} {op' : Op}, op.Run op' → op'.phase ≠ .finished →
      (op.phase.usesPointer = false → w = s.world) → (s.closed = true → c = true) →
      (op.phase = .begun → op'.phase = .holding → s.storage = .held) →
      (op'.phase = .calling → op.lane = .events → s.closed = false) →
      { s with world := w, closed := c }.setOp x op' = s' → ∃ op', RunOp s s' x op op' := by
    rintro w c op' hrun hnot hworld hclosed hholds hopens rfl
    exact ⟨op', hrun, rfl, by rw [if_neg hnot]; rfl, rfl, rfl, rfl, rfl, rfl, rfl, rfl, hworld,
      hclosed, hholds, hopens⟩
  -- outside the native calls only the operation changes
  have htouch : ∀ {op' : Op}, op.Run op' → op'.phase ≠ .finished →
      (op.phase = .begun → op'.phase = .holding → s.storage = .held) →
      (op'.phase = .calling → op.lane = .events → s.closed = false) →
      some (s.setOp x op') = some s' → ∃ op', RunOp s s' x op op' := by
    intro op' hrun hnot hholds hopens heq
    exact hset hrun hnot (fun _ => rfl) id hholds hopens (Option.some.inj heq)
  unfold runOp at h
  split at h
  · cases h
  · next hphase =>
      split at h
      · next hc => exact htouch (.refuse hphase hc) (by simp) (by simp) (by simp) h
      · next hc => exact htouch (.begin hphase (by simpa using hc)) (by simp) (by simp) (by simp) h
  · next hphase =>
      split at h
      · cases h
      · split at h
        · next hheld => exact htouch (.hold hphase) (by simp) (fun _ _ => hheld) (by simp) h
        · exact htouch (.shutDown hphase) (by simp) (by simp) (by simp) h
  · next hphase =>
      split at h
      · next hskip =>
          exact htouch (.skip hphase hskip.1) (by simp [Op.yield]) (by simp [Op.yield])
            (by simp [Op.yield]) h
      · next hopen =>
          exact htouch (.start hphase) (by simp) (by simp)
            (fun _ hlane => by simpa [hlane] using hopen) h
  · next hphase =>
      obtain ⟨⟨w, answer⟩, _, h⟩ := Option.map_eq_some_iff.mp h
      cases answer with
      | none =>
          exact hset (.wait hphase) (by simp) (by simp [hphase, OpPhase.usesPointer]) id (by simp)
            (by simp) h
      | some response =>
          exact hset (.answer response (Or.inl hphase)) (by simp)
            (by simp [hphase, OpPhase.usesPointer]) id (by simp) (by simp) h
  · next hphase =>
      obtain ⟨⟨w, response⟩, _, h⟩ := Option.map_eq_some_iff.mp h
      exact hset (.answer response (Or.inr hphase)) (by simp)
        (by simp [hphase, OpPhase.usesPointer]) id (by simp) (by simp) h
  · next response hphase =>
      split at h
      · next hlane =>
          split at h
          · exact htouch (.yield response none (Or.inl hphase)) (by simp [Op.yield])
              (by simp [Op.yield]) (by simp [Op.yield]) h
          · exact htouch (.report response hphase hlane) (by simp) (by simp) (by simp) h
      · next hlane =>
          have h := Option.some.inj h
          unfold readEvent at h
          split at h
          · next hcode =>
              exact hset (.close response hphase hlane hcode) (by simp) (fun _ => rfl)
                (fun _ => rfl) (by simp) (by simp) h
          · exact hset (.yield response none (Or.inl hphase)) (by simp [Op.yield]) (fun _ => rfl)
              id (by simp [Op.yield]) (by simp [Op.yield]) h
  · next response hphase =>
      obtain ⟨⟨w, answer⟩, _, h⟩ := Option.map_eq_some_iff.mp h
      exact hset (.yield response answer (Or.inr hphase)) (by simp [Op.yield])
        (by simp [hphase, OpPhase.usesPointer]) id (by simp [Op.yield]) (by simp [Op.yield]) h
  · cases h
  · next result hphase => exact htouch (.decide result hphase) (by simp) (by simp) (by simp) h
  · next outcome hphase => exact htouch (.resume outcome hphase) (by simp) (by simp) (by simp) h
  · next hphase =>
      obtain rfl := Option.some.inj h
      exact ⟨_, .finish hphase, rfl, by rw [if_pos rfl]; rfl, rfl, rfl, rfl, rfl, rfl, rfl, rfl,
        fun _ => rfl, id, by simp, by simp⟩
  · cases h

/-- The operations after a step: at most one is new or has changed. -/
inductive OpsStep (s s' : Host) : Prop
  | same (h : s'.ops = s.ops)
  | submit (x : OpId) (lane : Lane) (semantics : Semantics) (api : Api)
      (hnew : s.ops.lookup x = none) (h : s'.ops = s.ops.insert x { lane, semantics, api })
      (hmay : Op.Permitted { lane, semantics, api })
  | run (x : OpId) (op op' : Op) (hop : s.ops.lookup x = some op) (hspec : RunOp s s' x op op')
  | touch (x : OpId) (op op' : Op) (hop : s.ops.lookup x = some op) (htouch : op.Touch op')
      (h : s'.ops = s.ops.insert x op')

theorem woken_ops (s : Host) (waker : Waker) : (s.woken waker).ops = s.ops ∨
    ∃ x op op', s.ops.lookup x = some op ∧ op.Touch op' ∧
      (s.woken waker).ops = s.ops.insert x op' := by
  cases waker with
  | handler x =>
      simp only [woken]
      split
      · next op hop =>
          split
          · next hwaking => exact Or.inr ⟨x, op, _, hop, .woken hwaking, rfl⟩
          · exact Or.inl rfl
      · exact Or.inl rfl
  | closer => exact Or.inl rfl
  | closing x =>
      simp only [woken]
      split
      · next op hop =>
          split
          · next response hphase => exact Or.inr ⟨x, op, _, hop, .closed response hphase, rfl⟩
          · exact Or.inl rfl
      · exact Or.inl rfl
  | shutdown =>
      simp only [woken]
      split
      · exact Or.inl rfl
      · exact Or.inl rfl
      · exact Or.inl rfl

/-- What a return of `native.wake()` leaves alone. -/
theorem woken_fields (s : Host) (waker : Waker) :
    (s.woken waker).world = s.world ∧ (s.woken waker).storage = s.storage ∧
      (s.woken waker).destroys = s.destroys ∧ (s.woken waker).lock = s.lock ∧
      (s.woken waker).closed = s.closed ∧ (s.woken waker).lanes = s.lanes ∧
      (s.woken waker).released = s.released ∧ (s.woken waker).gone = s.gone := by
  have hsame : ∀ t : Host, t = s → t.world = s.world ∧ t.storage = s.storage ∧
      t.destroys = s.destroys ∧ t.lock = s.lock ∧ t.closed = s.closed ∧ t.lanes = s.lanes ∧
      t.released = s.released ∧ t.gone = s.gone := by
    rintro t rfl
    exact ⟨rfl, rfl, rfl, rfl, rfl, rfl, rfl, rfl⟩
  cases waker with
  | handler x =>
      simp only [woken]
      split
      · split
        · exact ⟨rfl, rfl, rfl, rfl, rfl, rfl, rfl, rfl⟩
        · exact hsame s rfl
      · exact hsame s rfl
  | closer => exact ⟨rfl, rfl, rfl, rfl, rfl, rfl, rfl, rfl⟩
  | closing x =>
      simp only [woken]
      split
      · split
        · exact ⟨rfl, rfl, rfl, rfl, rfl, rfl, rfl, rfl⟩
        · exact hsame s rfl
      · exact hsame s rfl
  | shutdown =>
      simp only [woken]
      split
      · exact ⟨rfl, rfl, rfl, rfl, rfl, rfl, rfl, rfl⟩
      · exact ⟨rfl, rfl, rfl, rfl, rfl, rfl, rfl, rfl⟩
      · exact hsame s rfl

@[simp] theorem woken_world (s : Host) (waker : Waker) : (s.woken waker).world = s.world :=
  (woken_fields s waker).1
@[simp] theorem woken_storage (s : Host) (waker : Waker) : (s.woken waker).storage = s.storage :=
  (woken_fields s waker).2.1
@[simp] theorem woken_destroys (s : Host) (waker : Waker) :
    (s.woken waker).destroys = s.destroys := (woken_fields s waker).2.2.1
@[simp] theorem woken_lock (s : Host) (waker : Waker) : (s.woken waker).lock = s.lock :=
  (woken_fields s waker).2.2.2.1
@[simp] theorem woken_closed (s : Host) (waker : Waker) : (s.woken waker).closed = s.closed :=
  (woken_fields s waker).2.2.2.2.1
@[simp] theorem woken_lanes (s : Host) (waker : Waker) : (s.woken waker).lanes = s.lanes :=
  (woken_fields s waker).2.2.2.2.2.1
@[simp] theorem woken_released (s : Host) (waker : Waker) :
    (s.woken waker).released = s.released := (woken_fields s waker).2.2.2.2.2.2.1
@[simp] theorem woken_gone (s : Host) (waker : Waker) : (s.woken waker).gone = s.gone :=
  (woken_fields s waker).2.2.2.2.2.2.2

/-! ## Steps of the host -/

/-- What each step does, and when it can happen. -/
inductive StepEnd (s : Host) : Step → Host → Prop
  | submit (x : OpId) (lane : Lane) (semantics : Semantics) (api : Api)
      (hnew : s.ops.lookup x = none) (hnative : lane = .native → s.released = false)
      (hmay : Op.Permitted { lane, semantics, api })
      (hevents : lane = .events → s.closed = false) :
      s.StepEnd (.submit x lane semantics api) (s.setOp x { lane, semantics, api })
  | enqueue (x : OpId) (op : Op) (hop : s.ops.lookup x = some op) (hphase : op.phase = .submitted) :
      s.StepEnd (.enqueue x) ((s.setOp x { op with phase := .queued }).async op.lane (.op x))
  | cancel (x : OpId) (op : Op) (hop : s.ops.lookup x = some op) (hcancelled : op.cancelled = false)
      (hreturned : op.returned = false) : s.StepEnd (.cancel x) (s.cancel x op)
  | run (env : Environment) (lane : Lane) (x : OpId) (op op' : Op) (s' : Host)
      (hhead : (s.lanes lane).queue.head? = some (.op x)) (hop : s.ops.lookup x = some op)
      (hrun : s.runOp env x op = some s') (hspec : RunOp s s' x op op') :
      s.StepEnd (.run env lane) s'
  | drain (env : Environment) (lane : Lane) (hhead : (s.lanes lane).queue.head? = some .drain) :
      s.StepEnd (.run env lane) ({ s with shutdown := .waking }.pop lane)
  | take (env : Environment) (lane : Lane) (hhead : (s.lanes lane).queue.head? = some .destroy)
      (hstorage : s.storage = .held) (hlock : s.lock = none) :
      s.StepEnd (.run env lane) { s with storage := .taken }
  | destroy (env : Environment) (lane : Lane) (w : World)
      (hhead : (s.lanes lane).queue.head? = some .destroy) (hstorage : s.storage = .taken)
      (hw : s.world.step .destroy = some w) : s.StepEnd (.run env lane) ({ s with
        world := w
        storage := .destroyed
        destroys := s.destroys + 1
        shutdown := .finished }.pop .native)
  | destroyNothing (env : Environment) (lane : Lane)
      (hhead : (s.lanes lane).queue.head? = some .destroy) (hstorage : s.storage = .destroyed) :
      s.StepEnd (.run env lane) ({ s with shutdown := .finished }.pop .native)
  | wake (waker : Waker) (hlock : s.lock = none) (hwaking : s.isWaking waker = true)
      (hstorage : s.storage = .held) : s.StepEnd (.wake waker) { s with lock := some waker }
  | wakeNothing (waker : Waker) (hlock : s.lock = none) (hwaking : s.isWaking waker = true)
      (hstorage : s.storage ≠ .held) : s.StepEnd (.wake waker) (s.woken waker)
  | woke (env : Environment) (waker : Waker) (w : World) (answer : Option Response)
      (hlock : s.lock = some waker) (hw : s.world.call env 0 .wake = some (w, answer)) :
      s.StepEnd (.woke env) ({ s with world := w, lock := none }.woken waker)
  | returns (x : OpId) (op : Op) (hop : s.ops.lookup x = some op) (hreturned : op.returned = false)
      (houtcome : op.outcome.isSome = true) : s.StepEnd (.returns x) (s.returns x op)
  | close (hgone : s.gone = false) : s.StepEnd .close s.close
  | shutdown (hreleased : s.released = false) (hidle : s.shutdown = .idle) :
      s.StepEnd .shutdown { s with shutdown := .started }
  | shutdownAgain (hreleased : s.released = false) (hidle : s.shutdown ≠ .idle) :
      s.StepEnd .shutdown s
  | closing (hshutdown : s.shutdown = .started) :
      s.StepEnd .advance { s with closed := true, shutdown := .closing }
  | addDrain (hshutdown : s.shutdown = .closed) :
      s.StepEnd .advance ({ s with shutdown := .draining }.async .events .drain)
  | addDestroy (hshutdown : s.shutdown = .woken) :
      s.StepEnd .advance ({ s with shutdown := .destroying }.async .native .destroy)
  | alert (env : Environment) (alert : Alert) (w : World) (hstorage : s.storage ≠ .destroyed)
      (hw : s.world.step (.alert env alert) = some w) :
      s.StepEnd (.alert env alert) { s with world := w }
  | release (hreleased : s.released = false) (hreferenced : s.isReferenced = false) :
      s.StepEnd .release ({ s with released := true }.close)
  | deinit (w : World) (hgone : s.gone = false) (hreferenced : s.isHandleReferenced = false)
      (hstorage : s.storage = .held) (hw : s.world.step .destroy = some w) :
      s.StepEnd .deinit
        { s with world := w, storage := .destroyed, destroys := s.destroys + 1, gone := true }
  | deinitNothing (hgone : s.gone = false) (hreferenced : s.isHandleReferenced = false)
      (hstorage : s.storage ≠ .held) : s.StepEnd .deinit { s with gone := true }

theorem run_end {s s' : Host} {env : Environment} {lane : Lane} (h : s.run env lane = some s') :
    s.StepEnd (.run env lane) s' := by
  unfold run at h
  split at h
  · cases h
  · next x hhead =>
      obtain ⟨op, hop, hrun⟩ := Option.bind_eq_some_iff.mp h
      obtain ⟨op', hspec⟩ := runOp_spec hrun
      exact .run env lane x op op' s' hhead hop hrun hspec
  · next hhead => exact Option.some.inj h ▸ .drain env lane hhead
  · next hhead =>
      unfold runDestroy at h
      split at h
      · next hstorage =>
          obtain ⟨hlock, h⟩ := Option.ite_none_left_eq_some.mp h
          exact Option.some.inj h ▸ .take env lane hhead hstorage (by simpa using hlock)
      · next hstorage =>
          obtain ⟨w, hw, rfl⟩ := Option.map_eq_some_iff.mp h
          exact .destroy env lane w hhead hstorage hw
      · next hstorage =>
          obtain ⟨_, h⟩ := Option.ite_none_left_eq_some.mp h
          exact Option.some.inj h ▸ .destroyNothing env lane hhead hstorage

theorem step_end {s s' : Host} {l : Step} (h : s.step l = some s') : s.StepEnd l s' := by
  cases l with
  | submit x lane semantics api =>
      obtain ⟨hmay, h⟩ := Option.ite_none_left_eq_some.mp h
      rw [not_or] at hmay
      obtain rfl := Option.some.inj h
      have hnew := Finmap.lookup_eq_none.mpr hmay.1
      cases lane with
      | native =>
          have hnative : (!s.released && isOperation api) = true := by simpa using hmay.2
          rw [Bool.and_eq_true] at hnative
          exact .submit x .native semantics api hnew (fun _ => by simpa using hnative.1)
            hnative.2 (by simp)
      | events =>
          have hevents : s.closed = false ∧ semantics = .cancellable ∧ api = .nextEvent 500 := by
            simpa using hmay.2
          exact .submit x .events semantics api hnew (by simp) hevents.2.2 (fun _ => hevents.1)
  | enqueue x =>
      obtain ⟨op, hop, h⟩ := Option.bind_eq_some_iff.mp h
      obtain ⟨hphase, h⟩ := Option.ite_none_right_eq_some.mp h
      exact Option.some.inj h ▸ .enqueue x op hop hphase
  | cancel x =>
      obtain ⟨op, hop, h⟩ := Option.bind_eq_some_iff.mp h
      obtain ⟨hmay, h⟩ := Option.ite_none_left_eq_some.mp h
      rw [Bool.or_eq_true, not_or, Bool.not_eq_true, Bool.not_eq_true] at hmay
      exact Option.some.inj h ▸ .cancel x op hop hmay.1 hmay.2
  | run env lane => exact run_end h
  | wake waker =>
      obtain ⟨hmay, h⟩ := Option.ite_none_left_eq_some.mp h
      simp only [Bool.or_eq_true, not_or, Bool.not_eq_true, Option.isSome_eq_false_iff,
        Option.isNone_iff_eq_none, Bool.not_eq_eq_eq_not, Bool.not_true, Bool.not_eq_false] at hmay
      split at h
      · next hstorage => exact Option.some.inj h ▸ .wake waker hmay.1 hmay.2 hstorage
      · next hstorage => exact Option.some.inj h ▸ .wakeNothing waker hmay.1 hmay.2 hstorage
  | woke env =>
      obtain ⟨waker, hlock, h⟩ := Option.bind_eq_some_iff.mp h
      obtain ⟨⟨w, answer⟩, hw, rfl⟩ := Option.map_eq_some_iff.mp h
      exact .woke env waker w answer hlock hw
  | returns x =>
      obtain ⟨op, hop, h⟩ := Option.bind_eq_some_iff.mp h
      obtain ⟨hmay, h⟩ := Option.ite_none_left_eq_some.mp h
      rw [Bool.or_eq_true, not_or, Bool.not_eq_true] at hmay
      refine Option.some.inj h ▸ .returns x op hop hmay.1 ?_
      simpa [Option.isSome_iff_ne_none] using hmay.2
  | close =>
      obtain ⟨hgone, h⟩ := Option.ite_none_left_eq_some.mp h
      exact Option.some.inj h ▸ .close (by simpa using hgone)
  | shutdown =>
      obtain ⟨hreleased, h⟩ := Option.ite_none_left_eq_some.mp h
      split at h
      · next hidle => exact Option.some.inj h ▸ .shutdown (by simpa using hreleased) hidle
      · next hidle => exact Option.some.inj h ▸ .shutdownAgain (by simpa using hreleased) hidle
  | advance =>
      simp only [step, advance] at h
      split at h
      · next hs => exact Option.some.inj h ▸ .closing hs
      · next hs => exact Option.some.inj h ▸ .addDrain hs
      · next hs => exact Option.some.inj h ▸ .addDestroy hs
      · cases h
  | alert env alert =>
      obtain ⟨hstorage, h⟩ := Option.ite_none_left_eq_some.mp h
      obtain ⟨w, hw, rfl⟩ := Option.map_eq_some_iff.mp h
      exact .alert env alert w hstorage hw
  | release =>
      obtain ⟨hmay, h⟩ := Option.ite_none_left_eq_some.mp h
      rw [Bool.or_eq_true, not_or, Bool.not_eq_true, Bool.not_eq_true] at hmay
      exact Option.some.inj h ▸ .release hmay.1 hmay.2
  | deinit =>
      obtain ⟨hmay, h⟩ := Option.ite_none_left_eq_some.mp h
      rw [Bool.or_eq_true, not_or, Bool.not_eq_true, Bool.not_eq_true] at hmay
      unfold Host.deinit at h
      split at h
      · next hstorage =>
          obtain ⟨w, hw, rfl⟩ := Option.map_eq_some_iff.mp h
          exact .deinit w hmay.1 hmay.2 hstorage hw
      · next hstorage => exact Option.some.inj h ▸ .deinitNothing hmay.1 hmay.2 hstorage

theorem step_ops {s s' : Host} {l : Step} (h : s.step l = some s') : OpsStep s s' := by
  have hwoken : ∀ {t : Host} (waker : Waker), t.ops = s.ops → OpsStep s (t.woken waker) := by
    intro t waker ht
    rcases woken_ops t waker with heq | ⟨x, op, op', hop, htouch, heq⟩ <;> rw [ht] at heq
    · exact .same heq
    · exact .touch x op op' (ht ▸ hop) htouch heq
  cases step_end h with
  | submit x lane semantics api hnew _ hmay => exact .submit x lane semantics api hnew rfl hmay
  | enqueue x op hop hphase => exact .touch x op _ hop (.enqueue hphase) rfl
  | cancel x op hop hcancelled => exact .touch x op _ hop (.cancel hcancelled) rfl
  | run env lane x op op' _ hhead hop hrun hspec => exact .run x op op' hop hspec
  | wakeNothing waker => exact hwoken waker rfl
  | woke env waker w answer => exact hwoken waker rfl
  | returns x op hop hreturned houtcome =>
      refine .touch x op { op with returned := true } hop (.returns houtcome) ?_
      unfold returns
      dsimp only
      split <;> rfl
  | drain | take | destroy | destroyNothing | wake | close | shutdown | shutdownAgain | closing
  | addDrain | addDestroy | alert | release | deinit | deinitNothing => exact .same rfl

/-- The lock is kept, given back, or taken by a waker while the storage has the pointer. -/
theorem step_lock {s s' : Host} {l : Step} (h : s.step l = some s') :
    s'.lock = s.lock ∨ s'.lock = none ∨
      ∃ waker, s'.lock = some waker ∧ s.isWaking waker = true ∧ s'.storage = .held := by
  cases step_end h with
  | run env lane x op op' _ hhead hop hrun hspec => exact Or.inl hspec.lock
  | wake waker hlock hwaking hstorage => exact Or.inr (Or.inr ⟨waker, rfl, hwaking, hstorage⟩)
  | wakeNothing waker => exact Or.inl (woken_lock s waker)
  | woke env waker => exact Or.inr (Or.inl (woken_lock _ waker))
  | returns x op =>
      refine Or.inl ?_
      unfold returns
      dsimp only
      split <;> rfl
  | submit | enqueue | cancel | drain | take | destroy | destroyNothing | close | shutdown
  | shutdownAgain | closing | addDrain | addDestroy | alert | release | deinit
  | deinitNothing => exact Or.inl rfl

end Host

/-! ## What holds of every operation -/

namespace Op

/-- What the outcome says about the closure: only a result means that it has run, unless a
    cancellation has replaced the result. -/
def Fits (op : Op) : Outcome → Prop
  | .cancellationError =>
      op.cancelled = true ∧ op.runs ≤ 1 ∧ (op.semantics = .mutation → op.runs = 0)
  | .sessionShutDown => op.runs = 0
  | .result result => op.runs = 1 ∧ op.yielded = some result

/-- What the phase of an operation says about its closure, its `running` flag and its
    continuation. -/
def PhaseOk (op : Op) : OpPhase → Prop
  | .submitted => op.runs = 0 ∧ op.running = false ∧ op.outcome = none
  | .queued => op.runs = 0 ∧ op.running = false ∧ op.outcome = none
  | .begun => op.runs = 0 ∧ op.running = true ∧ op.outcome = none
  | .holding => op.runs = 0 ∧ op.running = true ∧ op.outcome = none
  | .calling => op.runs = 1 ∧ op.running = true ∧ op.outcome = none
  | .waiting => op.runs = 1 ∧ op.running = true ∧ op.outcome = none
  | .answered _ => op.runs = 1 ∧ op.running = true ∧ op.outcome = none
  | .reporting _ => op.runs = 1 ∧ op.running = true ∧ op.outcome = none
  | .closing _ => op.runs = 1 ∧ op.running = true ∧ op.outcome = none
  | .executed result =>
      op.runs = 1 ∧ op.running = true ∧ op.outcome = none ∧ op.yielded = some result
  | .resuming outcome => op.Fits outcome ∧ op.outcome = none
  | .resumed => ∃ outcome, op.outcome = some outcome ∧ op.Fits outcome
  | .finished => ∃ outcome, op.outcome = some outcome ∧ op.Fits outcome

/-- What always holds of an operation. -/
structure Ok (op : Op) : Prop where
  phase : op.PhaseOk op.phase
  resumes : op.resumes = if op.outcome.isSome then 1 else 0
  handler : op.handler = .idle ↔ op.cancelled = false
  mutation : op.semantics = .mutation → op.handler ≠ .waking
  returned : op.returned = true → op.outcome.isSome = true

theorem ok_new (lane : Lane) (semantics : Semantics) (api : Api) :
    Ok { lane, semantics, api } where
  phase := ⟨rfl, rfl, rfl⟩
  resumes := rfl
  handler := by simp
  mutation := by simp
  returned := by simp

theorem Fits.runs_le {op : Op} {o : Outcome} (h : op.Fits o) : op.runs ≤ 1 := by
  cases o with
  | cancellationError => exact h.2.1
  | sessionShutDown => exact (Nat.le_of_eq h).trans (Nat.zero_le 1)
  | result result => exact h.1.le

theorem Ok.runs_le {op : Op} (h : op.Ok) : op.runs ≤ 1 := by
  have hp := h.phase
  generalize op.phase = phase at hp
  cases phase
  case resuming outcome => exact hp.1.runs_le
  case resumed =>
    obtain ⟨outcome, _, hfits⟩ := hp
    exact hfits.runs_le
  case finished =>
    obtain ⟨outcome, _, hfits⟩ := hp
    exact hfits.runs_le
  all_goals
    simp only [PhaseOk] at hp
    omega

theorem Ok.fits {op : Op} {o : Outcome} (h : op.Ok) (ho : op.outcome = some o) : op.Fits o := by
  have hp := h.phase
  generalize op.phase = phase at hp
  cases phase
  case resumed =>
    obtain ⟨outcome, hsome, hfits⟩ := hp
    exact Option.some.inj (hsome.symm.trans ho) ▸ hfits
  case finished =>
    obtain ⟨outcome, hsome, hfits⟩ := hp
    exact Option.some.inj (hsome.symm.trans ho) ▸ hfits
  all_goals
    simp only [PhaseOk] at hp
    simp [ho] at hp

/-- The continuation has been resumed exactly in the last two phases. -/
theorem Ok.outcome_iff {op : Op} (h : op.Ok) :
    op.outcome.isSome = true ↔ op.phase = .resumed ∨ op.phase = .finished := by
  have hp := h.phase
  generalize hphase : op.phase = phase at hp
  cases phase
  case resumed =>
    obtain ⟨outcome, hsome, _⟩ := hp
    simp [hsome]
  case finished =>
    obtain ⟨outcome, hsome, _⟩ := hp
    simp [hsome]
  all_goals
    simp only [PhaseOk] at hp
    simp [hp]

/-- A step that leaves the continuation and the cancellation alone. -/
theorem Ok.move {op op' : Op} (h : op.Ok) (hsemantics : op'.semantics = op.semantics)
    (hcancelled : op'.cancelled = op.cancelled) (hhandler : op'.handler = op.handler)
    (houtcome : op'.outcome = op.outcome) (hresumes : op'.resumes = op.resumes)
    (hreturned : op'.returned = op.returned) (hphase : op'.PhaseOk op'.phase) : op'.Ok where
  phase := hphase
  resumes := by rw [hresumes, houtcome, h.resumes]
  handler := by rw [hhandler, hcancelled, h.handler]
  mutation := by rw [hsemantics, hhandler]; exact h.mutation
  returned := by rw [hreturned, houtcome]; exact h.returned

theorem decide_fits {op : Op} {result : ClosureResult} (hruns : op.runs = 1)
    (hyielded : op.yielded = some result) : op.Fits (op.decide result) := by
  unfold decide
  split
  · next h =>
      refine ⟨h.2, hruns.le, fun hm => ?_⟩
      rw [hm] at h
      cases h.1
  · exact ⟨hruns, hyielded⟩

theorem Run.ok {op op' : Op} (h : op.Run op') (hok : op.Ok) : op'.Ok := by
  have hp := hok.phase
  cases h with
  | refuse hphase hcancelled =>
      rw [hphase] at hp
      obtain ⟨hruns, _, hnone⟩ := hp
      exact hok.move rfl rfl rfl rfl rfl rfl
        ⟨⟨hcancelled, hruns.le.trans (by decide), fun _ => hruns⟩, hnone⟩
  | begin hphase hcancelled =>
      rw [hphase] at hp
      obtain ⟨hruns, _, hnone⟩ := hp
      exact hok.move rfl rfl rfl rfl rfl rfl ⟨hruns, rfl, hnone⟩
  | hold hphase =>
      rw [hphase] at hp
      exact hok.move rfl rfl rfl rfl rfl rfl hp
  | shutDown hphase =>
      rw [hphase] at hp
      obtain ⟨hruns, _, hnone⟩ := hp
      exact hok.move rfl rfl rfl rfl rfl rfl ⟨hruns, hnone⟩
  | skip hphase hlane =>
      rw [hphase] at hp
      obtain ⟨hruns, hrunning, hnone⟩ := hp
      exact hok.move rfl rfl rfl rfl rfl rfl ⟨congrArg (· + 1) hruns, hrunning, hnone, rfl⟩
  | start hphase =>
      rw [hphase] at hp
      obtain ⟨hruns, hrunning, hnone⟩ := hp
      exact hok.move rfl rfl rfl rfl rfl rfl ⟨congrArg (· + 1) hruns, hrunning, hnone⟩
  | wait hphase =>
      rw [hphase] at hp
      exact hok.move rfl rfl rfl rfl rfl rfl hp
  | answer response hphase =>
      rcases hphase with hphase | hphase <;> rw [hphase] at hp
      · exact hok.move rfl rfl rfl rfl rfl rfl hp
      · exact hok.move rfl rfl rfl rfl rfl rfl hp
  | report response hphase hlane =>
      rw [hphase] at hp
      exact hok.move rfl rfl rfl rfl rfl rfl hp
  | close response hphase hlane =>
      rw [hphase] at hp
      exact hok.move rfl rfl rfl rfl rfl rfl hp
  | yield response lastError hphase =>
      rcases hphase with hphase | hphase <;> rw [hphase] at hp <;>
        obtain ⟨hruns, hrunning, hnone⟩ := hp
      · exact hok.move rfl rfl rfl rfl rfl rfl ⟨hruns, hrunning, hnone, rfl⟩
      · exact hok.move rfl rfl rfl rfl rfl rfl ⟨hruns, hrunning, hnone, rfl⟩
  | decide result hphase =>
      rw [hphase] at hp
      obtain ⟨hruns, _, hnone, hyielded⟩ := hp
      exact hok.move rfl rfl rfl rfl rfl rfl ⟨decide_fits hruns hyielded, hnone⟩
  | resume outcome hphase =>
      rw [hphase] at hp
      obtain ⟨hfits, hnone⟩ := hp
      have hresumes : op.resumes = 0 := by rw [hok.resumes, hnone]; rfl
      exact ⟨⟨outcome, rfl, hfits⟩, congrArg (· + 1) hresumes, hok.handler, hok.mutation,
        fun _ => rfl⟩
  | finish hphase =>
      rw [hphase] at hp
      obtain ⟨outcome, hsome, hfits⟩ := hp
      exact hok.move rfl rfl rfl rfl rfl rfl ⟨outcome, hsome, hfits⟩

/-- A change of the flags of the cancellation and of the caller. -/
theorem PhaseOk.flags {op op' : Op} {phase : OpPhase} (h : op.PhaseOk phase)
    (hsemantics : op'.semantics = op.semantics) (hruns : op'.runs = op.runs)
    (hyielded : op'.yielded = op.yielded) (hrunning : op'.running = op.running)
    (houtcome : op'.outcome = op.outcome)
    (hcancelled : op.cancelled = true → op'.cancelled = true) : op'.PhaseOk phase := by
  have hfits : ∀ o, op.Fits o → op'.Fits o := by
    intro o ho
    cases o with
    | cancellationError =>
        obtain ⟨hc, hr, hm⟩ := ho
        exact ⟨hcancelled hc, hruns ▸ hr, fun h => hruns.trans (hm (hsemantics ▸ h))⟩
    | sessionShutDown => exact hruns.trans ho
    | result result => exact ⟨hruns.trans ho.1, hyielded.trans ho.2⟩
  cases phase <;> simp only [PhaseOk, hruns, hrunning, houtcome, hyielded] at h ⊢
  case resuming outcome => exact ⟨hfits outcome h.1, h.2⟩
  case resumed =>
    obtain ⟨outcome, hsome, ho⟩ := h
    exact ⟨outcome, hsome, hfits outcome ho⟩
  case finished =>
    obtain ⟨outcome, hsome, ho⟩ := h
    exact ⟨outcome, hsome, hfits outcome ho⟩
  all_goals exact h

theorem Touch.ok {op op' : Op} (h : op.Touch op') (hok : op.Ok) : op'.Ok := by
  cases h with
  | enqueue hphase =>
      have hp := hok.phase
      rw [hphase] at hp
      exact hok.move rfl rfl rfl rfl rfl rfl hp
  | cancel hcancelled =>
      refine ⟨hok.phase.flags rfl rfl rfl rfl rfl fun _ => rfl, hok.resumes, ?_, fun hm => ?_,
        hok.returned⟩
      · dsimp only
        split <;> simp
      · have hm' : op.semantics = .mutation := hm
        simp [hm']
  | woken hhandler =>
      refine ⟨hok.phase.flags rfl rfl rfl rfl rfl id, hok.resumes, ?_, fun _ => by simp,
        hok.returned⟩
      have hnot : op.cancelled ≠ false := fun hc => by
        rw [hok.handler.mpr hc] at hhandler
        cases hhandler
      simpa using hnot
  | closed response hphase =>
      have hp := hok.phase
      rw [hphase] at hp
      obtain ⟨hruns, hrunning, hnone⟩ := hp
      exact hok.move rfl rfl rfl rfl rfl rfl ⟨hruns, hrunning, hnone, rfl⟩
  | returns houtcome =>
      exact ⟨hok.phase.flags rfl rfl rfl rfl rfl id, hok.resumes, hok.handler, hok.mutation,
        fun _ => houtcome⟩

theorem Step.ok {op op' : Op} (h : op.Step op') (hok : op.Ok) : op'.Ok :=
  h.elim (fun h => h.ok hok) fun h => h.ok hok

end Op

namespace Host

/-- A step keeps what holds of every operation by itself. -/
theorem OpsStep.keeps {P : Op → Prop} {s s' : Host} (h : OpsStep s s')
    (hnew : ∀ lane semantics api, P { lane, semantics, api })
    (hstep : ∀ {op op' : Op}, op.Step op' → P op → P op')
    (hs : ∀ x op, s.ops.lookup x = some op → P op) : ∀ x op, s'.ops.lookup x = some op → P op := by
  have hinsert : ∀ {x op}, P op → s'.ops = s.ops.insert x op →
      ∀ y op, s'.ops.lookup y = some op → P op := by
    intro x op hop heq y op' hy
    rw [heq] at hy
    by_cases hyx : y = x
    · subst hyx
      rw [Finmap.lookup_insert] at hy
      exact Option.some.inj hy ▸ hop
    · exact hs y op' (Finmap.lookup_insert_of_ne _ hyx ▸ hy)
  cases h with
  | same heq => exact fun x op hop => hs x op (heq ▸ hop)
  | submit x lane semantics api _ heq => exact hinsert (hnew lane semantics api) heq
  | run x op op' hop hspec => exact hinsert (hstep (Or.inl hspec.run) (hs x op hop)) hspec.ops
  | touch x op op' hop h heq => exact hinsert (hstep (Or.inr h) (hs x op hop)) heq

/-- After every run, every operation is in order. -/
theorem run_ok {ls : List Step} {s : Host} (hrun : Lts.exec step {} ls = some s) {x : OpId}
    {op : Op} (hop : s.ops.lookup x = some op) : op.Ok :=
  Lts.exec_invariant' (fun s : Host => ∀ x op, s.ops.lookup x = some op → op.Ok)
    (fun x op hop => by simp at hop)
    (fun s l s' hs h => (step_ops h).keeps Op.ok_new Op.Step.ok hs) ls s hrun x op hop

theorem OpsStep.op {s s' : Host} (h : OpsStep s s') {x : OpId} {op : Op}
    (hop : s.ops.lookup x = some op) :
    ∃ op', s'.ops.lookup x = some op' ∧ (op' = op ∨ RunOp s s' x op op' ∨ op.Touch op') := by
  have hinsert : ∀ {y : OpId} {op₀ op₁ : Op}, s.ops.lookup y = some op₀ →
      s'.ops = s.ops.insert y op₁ → (RunOp s s' y op₀ op₁ ∨ op₀.Touch op₁) →
      ∃ op', s'.ops.lookup x = some op' ∧ (op' = op ∨ RunOp s s' x op op' ∨ op.Touch op') := by
    intro y op₀ op₁ hop₀ heq hmoved
    by_cases hxy : x = y
    · subst hxy
      obtain rfl := Option.some.inj (hop₀.symm.trans hop)
      exact ⟨op₁, by rw [heq, Finmap.lookup_insert], Or.inr hmoved⟩
    · exact ⟨op, by rw [heq, Finmap.lookup_insert_of_ne _ hxy, hop], Or.inl rfl⟩
  cases h with
  | same heq => exact ⟨op, heq ▸ hop, Or.inl rfl⟩
  | submit y lane semantics api hnew heq =>
      have hne : x ≠ y := fun hxy => by
        subst hxy
        rw [hnew] at hop
        cases hop
      exact ⟨op, by rw [heq, Finmap.lookup_insert_of_ne _ hne, hop], Or.inl rfl⟩
  | run y op₀ op₁ hop₀ hspec => exact hinsert hop₀ hspec.ops (Or.inl hspec)
  | touch y op₀ op₁ hop₀ htouch heq => exact hinsert hop₀ heq (Or.inr htouch)

/-- A change of an operation adds no other. -/
theorem lookup_none_of_insert {s s' : Host} {x y : OpId} {op op' : Op}
    (hnone : s.ops.lookup x = none) (hop : s.ops.lookup y = some op)
    (h : s'.ops = s.ops.insert y op') : s'.ops.lookup x = none := by
  have hne : x ≠ y := fun hxy => by
    subst hxy
    rw [hnone] at hop
    cases hop
  rw [h, Finmap.lookup_insert_of_ne _ hne, hnone]

/-- An operation after a step is new, or was there before, and its own block or some thread may
    have changed it. -/
theorem OpsStep.op_before {s s' : Host} (h : OpsStep s s') {x : OpId} {op' : Op}
    (hop' : s'.ops.lookup x = some op') :
    ((s.ops.lookup x = none ∧ op'.Permitted) ∧
        op' = { lane := op'.lane, semantics := op'.semantics, api := op'.api }) ∨
      ∃ op, s.ops.lookup x = some op ∧ (op' = op ∨ RunOp s s' x op op' ∨ op.Touch op') := by
  cases hop : s.ops.lookup x with
  | some op =>
      obtain ⟨op'', hop'', hmoved⟩ := h.op hop
      obtain rfl := Option.some.inj (hop'.symm.trans hop'')
      exact Or.inr ⟨op, rfl, hmoved⟩
  | none =>
      cases h with
      | same heq =>
          rw [heq, hop] at hop'
          cases hop'
      | submit y lane semantics api hnew heq hmay =>
          by_cases hxy : x = y
          · subst hxy
            rw [heq, Finmap.lookup_insert] at hop'
            obtain rfl := Option.some.inj hop'
            exact Or.inl ⟨⟨rfl, hmay⟩, rfl⟩
          · rw [heq, Finmap.lookup_insert_of_ne _ hxy, hop] at hop'
            cases hop'
      | run y op₀ op₁ hop₀ hspec =>
          rw [lookup_none_of_insert hop hop₀ hspec.ops] at hop'
          cases hop'
      | touch y op₀ op₁ hop₀ htouch heq =>
          rw [lookup_none_of_insert hop hop₀ heq] at hop'
          cases hop'

/-- Every operation is on the lane it is meant for. -/
theorem step_permitted {s s' : Host} {l : Step}
    (hs : ∀ x op, s.ops.lookup x = some op → op.Permitted) (h : s.step l = some s') :
    ∀ x op, s'.ops.lookup x = some op → op.Permitted := by
  intro x op' hop'
  have hkept : ∀ {op : Op}, op'.lane = op.lane ∧ op'.semantics = op.semantics ∧ op'.api = op.api →
      op.Permitted → op'.Permitted := by
    rintro op ⟨hlane, _, hapi⟩ hop
    unfold Op.Permitted
    rw [hlane, hapi]
    exact hop
  rcases (step_ops h).op_before hop' with ⟨⟨_, hmay⟩, _⟩ | ⟨op, hop, rfl | hspec | htouch⟩
  · exact hmay
  · exact hs x op' hop
  · exact hkept hspec.run.kept (hs x op hop)
  · exact hkept htouch.kept (hs x op hop)

theorem run_permitted {ls : List Step} {s : Host} (hrun : Lts.exec step {} ls = some s) {x : OpId}
    {op : Op} (hop : s.ops.lookup x = some op) : op.Permitted :=
  Lts.exec_invariant' (fun s : Host => ∀ x op, s.ops.lookup x = some op → op.Permitted)
    (fun x op hop => by simp at hop) (fun _ _ _ hs h => step_permitted hs h) ls s hrun x op hop

/-- What every step of an operation relates, a run relates. -/
theorem exec_op {R : Op → Op → Prop} (hrefl : ∀ op, R op op)
    (htrans : ∀ {a b c}, R a b → R b c → R a c) (hstep : ∀ {op op'}, op.Ok → op.Step op' → R op op')
    {ls : List Step} {s t : Host} (hs : ∀ x op, s.ops.lookup x = some op → op.Ok)
    (hrun : Lts.exec step s ls = some t) {x : OpId} {op : Op} (hop : s.ops.lookup x = some op) :
    ∃ op', t.ops.lookup x = some op' ∧ R op op' := by
  induction ls generalizing s op with
  | nil =>
      obtain rfl := Option.some.inj hrun
      exact ⟨op, hop, hrefl op⟩
  | cons l ls ih =>
      rw [Lts.exec_cons, Option.bind_eq_some_iff] at hrun
      obtain ⟨u, hu, hrest⟩ := hrun
      have hops := step_ops hu
      obtain ⟨op₁, hop₁, hmoved⟩ := hops.op hop
      obtain ⟨op', hop', hR⟩ := ih (hops.keeps Op.ok_new Op.Step.ok hs) hrest hop₁
      refine ⟨op', hop', ?_⟩
      rcases hmoved with rfl | hspec | htouch
      · exact hR
      · exact htrans (hstep (hs x op hop) (Or.inl hspec.run)) hR
      · exact htrans (hstep (hs x op hop) (Or.inr htouch)) hR

/-! ## Attributes of the operations -/

section

variable {α : Type} {f : Op → Option α} {s s' : Host} {x : OpId} {op op' : Op}

/-- What `f` says of the operation `x`, if there is one. -/
def opAt (s : Host) (f : Op → Option α) (x : OpId) : Option α := (s.ops.lookup x).bind f

theorem opAt_eq (hop : s.ops.lookup x = some op) : s.opAt f x = f op := by
  rw [opAt, hop, Option.bind_some]

theorem opAt_insert (h : s'.ops = s.ops.insert x op') :
    s'.opAt f = Function.update (s.opAt f) x (f op') := by
  funext y
  unfold opAt
  rw [h]
  by_cases hy : y = x
  · subst hy
    rw [Finmap.lookup_insert, Function.update_self, Option.bind_some]
  · rw [Finmap.lookup_insert_of_ne _ hy, Function.update_of_ne hy]

theorem opAt_congr (h : s'.ops = s.ops) : s'.opAt f = s.opAt f := by
  funext y
  rw [opAt, h, opAt]

/-- A change of an operation that `f` does not see. -/
theorem opAt_same (hop : s.ops.lookup x = some op) (h : s'.ops = s.ops.insert x op')
    (hf : f op' = f op) : s'.opAt f = s.opAt f := by
  have hself : s.opAt f x = f op := opAt_eq hop
  rw [opAt_insert h, hf, ← hself, Function.update_eq_self]

theorem opAt_submit (hnew : s.ops.lookup x = none) (h : s'.ops = s.ops.insert x op')
    (hf : f op' = none) : s'.opAt f = s.opAt f := by
  have hself : s.opAt f x = none := by rw [opAt, hnew, Option.bind_none]
  rw [opAt_insert h, hf, ← hself, Function.update_eq_self]

theorem opAt_woken (waker : Waker)
    (hf : ∀ y op op', s.ops.lookup y = some op → op.Touch op' → f op' = f op) :
    (s.woken waker).opAt f = s.opAt f := by
  rcases woken_ops s waker with heq | ⟨y, op, op', hop, htouch, heq⟩
  · exact opAt_congr heq
  · exact opAt_same hop heq (hf y op op' hop htouch)

end

end Host

end LibtorrentKit
