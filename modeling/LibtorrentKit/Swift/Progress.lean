/-
  The Swift side comes to rest.

  The steps of `Step.isOwn` are those that the threads of the process take by themselves: a task
  goes on, a block, a wake, the call that shuts the session down. `Host.work` bounds how many of
  them are left. Each of them uses some of it up; new operations, cancellations and closes add to
  it, alerts do not. As long as the host is not at rest, one of them is possible: nobody waits
  for a block, a lock or a wake that does not come (`exists_own`).

  A wait of the session ends with its deadline at the latest, so that a block which waits can
  always go on.
-/
import LibtorrentKit.Lib.Descent
import LibtorrentKit.Lib.Entries
import LibtorrentKit.Swift.Outcomes
import LibtorrentKit.Swift.Effects
import LibtorrentKit.Swift.Lifetime
import LibtorrentKit.Session.Alive

namespace LibtorrentKit

/-! ## Work that is left -/

theorem OpPhase.rank_le (phase : OpPhase) : phase.rank ≤ 11 := by
  cases phase <;> simp [rank]

theorem Shutdown.rank_le (shutdown : Shutdown) : shutdown.rank ≤ 8 := by
  cases shutdown <;> simp [rank]

namespace Op

/-- A call that is to return may have to close the event reader, and a closer has to wake. -/
def work (op : Op) : Nat :=
  3 * (11 - op.phase.rank) + (if op.handler = .waking then 2 else 0) +
    if op.returned then 0 else 3

theorem Run.rank_lt {op op' : Op} (h : op.Run op') : op.phase.rank < op'.phase.rank := by
  cases h with
  | answer response hphase => rcases hphase with hphase | hphase <;> simp [hphase, OpPhase.rank]
  | yield response lastError hphase =>
      rcases hphase with hphase | hphase <;> simp [hphase, OpPhase.rank, Op.yield]
  | refuse hphase | begin hphase | hold hphase | shutDown hphase | start hphase | wait hphase
  | report response hphase | close response hphase | decide result hphase | resume outcome hphase
  | finish hphase => simp [hphase, OpPhase.rank]
  | skip hphase => simp [hphase, OpPhase.rank, Op.yield]

theorem work_lt {op op' : Op} (hhandler : op'.handler = op.handler)
    (hreturned : op'.returned = op.returned) (hrank : op.phase.rank < op'.phase.rank) :
    op'.work + 3 ≤ op.work := by
  have hle := op'.phase.rank_le
  unfold work
  rw [hhandler, hreturned]
  omega

theorem Run.work {op op' : Op} (h : op.Run op') : op'.work + 3 ≤ op.work :=
  work_lt h.flags.2.1 h.flags.2.2 h.rank_lt

end Op

def Storage.work : Storage → Nat
  | .held => 2
  | .taken => 1
  | .destroyed => 0

namespace Host

def work (s : Host) : Nat :=
  s.ops.total Op.work + 2 * s.closers + (if s.lock = none then 1 else 0) +
    3 * (8 - s.shutdown.rank) + s.storage.work

/-- What the threads of the process do by themselves. -/
def Step.isOwn : Step → Bool
  | .enqueue _ => true
  | .run _ _ => true
  | .wake _ => true
  | .woke _ => true
  | .returns _ => true
  | .advance => true
  | _ => false

/-- The work that a step adds. -/
def Step.budget : Step → Nat
  | .submit _ _ _ _ => 36
  | .cancel _ => 2
  | .close => 2
  | .release => 2
  | _ => 0

theorem own_pays {l : Step} (h : l.isOwn = true) : 1 ≤ l.isOwn.toNat ∧ l.budget = 0 := by
  cases l <;> simp [Step.isOwn, Step.budget] at h ⊢

variable {s s' : Host} {x : OpId} {op op' : Op}

/-- Only the operations change. -/
theorem work_ops (hclosers : s'.closers = s.closers) (hlock : s'.lock = s.lock)
    (hshutdown : s'.shutdown = s.shutdown) (hstorage : s'.storage = s.storage) :
    s'.work + s.ops.total Op.work = s.work + s'.ops.total Op.work := by
  unfold work
  rw [hclosers, hlock, hshutdown, hstorage]
  omega

theorem work_set (hop : s.ops.lookup x = some op) (hops : s'.ops = s.ops.insert x op')
    (hclosers : s'.closers = s.closers) (hlock : s'.lock = s.lock)
    (hshutdown : s'.shutdown = s.shutdown) (hstorage : s'.storage = s.storage) :
    s'.work + op.work = s.work + op'.work := by
  have htotal : _ + op.work = _ + op'.work := Finmap.total_insert hop
  have hwork := work_ops hclosers hlock hshutdown hstorage
  rw [hops] at hwork
  omega

theorem work_congr (hops : s'.ops = s.ops) (hclosers : s'.closers = s.closers)
    (hlock : s'.lock = s.lock) (hshutdown : s'.shutdown = s.shutdown)
    (hstorage : s'.storage = s.storage) : s'.work = s.work := by
  have hwork := work_ops hclosers hlock hshutdown hstorage
  rw [hops] at hwork
  omega

theorem work_close (s : Host) : s.close.work = s.work + 2 := by
  unfold work close
  dsimp only
  omega

/-- The shutdown gets on. -/
theorem work_shutdown {shutdown : Shutdown} (hops : s'.ops = s.ops)
    (hclosers : s'.closers = s.closers) (hlock : s'.lock = s.lock)
    (hshutdown : s'.shutdown = shutdown) (hrank : s.shutdown.rank < shutdown.rank)
    (hstorage : s'.storage.work ≤ s.storage.work) : s'.work + 3 ≤ s.work := by
  have hle := shutdown.rank_le
  unfold work
  rw [hops, hclosers, hlock, hshutdown]
  omega

theorem isWaking_closing (h : s.isWaking (.closing x) = true) :
    ∃ op response, s.ops.lookup x = some op ∧ op.phase = .closing response := by
  obtain ⟨op, hop, hphase⟩ := (Option.any_eq_true _ _).mp h
  cases hp : op.phase with
  | closing response => exact ⟨op, response, hop, hp⟩
  | submitted | queued | begun | holding | calling | waiting | answered | reporting | executed
  | resuming | resumed | finished => simp [hp] at hphase

/-- A wake that has been made need not be made again. -/
theorem woken_work {waker : Waker} (h : s.isWaking waker = true) :
    (s.woken waker).work + 2 ≤ s.work := by
  cases waker with
  | handler x =>
      obtain ⟨op, hop, hwaking⟩ := isWaking_handler h
      have hset := @work_set s (s.setOp x { op with handler := .done }) x op _ hop rfl rfl rfl
        rfl rfl
      have hop' : Op.work { op with handler := .done } + 2 = op.work := by
        simp [Op.work, hwaking]
        omega
      simp only [woken, hop, hwaking, if_true]
      omega
  | closer =>
      have hpos : 0 < s.closers := of_decide_eq_true h
      unfold work woken
      dsimp only
      omega
  | closing x =>
      obtain ⟨op, response, hop, hphase⟩ := isWaking_closing h
      have hset := @work_set s (s.setOp x (op.yield (.native response none))) x op _ hop rfl rfl
        rfl rfl rfl
      have hop' : (op.yield (.native response none)).work + 3 ≤ op.work :=
        Op.work_lt rfl rfl (by simp [hphase, Op.yield, OpPhase.rank])
      simp only [woken, hop, hphase]
      omega
  | shutdown =>
      have hphase : s.shutdown = .closing ∨ s.shutdown = .waking := by simpa [isWaking] using h
      rcases hphase with hphase | hphase
      · have := @work_shutdown s { s with shutdown := .closed } .closed rfl rfl rfl rfl
          (by simp [hphase, Shutdown.rank]) (Nat.le_refl _)
        simp only [woken, hphase]
        omega
      · have := @work_shutdown s { s with shutdown := .woken } .woken rfl rfl rfl rfl
          (by simp [hphase, Shutdown.rank]) (Nat.le_refl _)
        simp only [woken, hphase]
        omega

/-! ## The lock -/

/-- Who holds the lock is about to wake. -/
def LockWaking (s : Host) : Prop := ∀ waker, s.lock = some waker → s.isWaking waker = true

/-- Whether an operation is about to wake does not change. -/
def KeepsWaking (op op' : Op) : Prop :=
  (op.handler = .waking → op'.handler = .waking) ∧
    ∀ response, op.phase = .closing response → op'.phase = .closing response

theorem isWaking_mono
    (hops : ∀ x op, s.ops.lookup x = some op →
      ∃ op', s'.ops.lookup x = some op' ∧ KeepsWaking op op')
    (hclosers : s.closers ≤ s'.closers)
    (hshutdown : s.shutdown = .closing ∨ s.shutdown = .waking → s'.shutdown = s.shutdown)
    {waker : Waker} (h : s.isWaking waker = true) : s'.isWaking waker = true := by
  cases waker with
  | handler x =>
      obtain ⟨op, hop, hwaking⟩ := isWaking_handler h
      obtain ⟨op', hop', hkeeps⟩ := hops x op hop
      simp [isWaking, hop', hkeeps.1 hwaking]
  | closer => exact decide_eq_true ((of_decide_eq_true h).trans_le hclosers)
  | closing x =>
      obtain ⟨op, response, hop, hphase⟩ := isWaking_closing h
      obtain ⟨op', hop', hkeeps⟩ := hops x op hop
      simp [isWaking, hop', hkeeps.2 response hphase]
  | shutdown =>
      have hphase : s.shutdown = .closing ∨ s.shutdown = .waking := by simpa [isWaking] using h
      unfold isWaking at h ⊢
      rw [hshutdown hphase]
      exact h

/-- The waker that holds the lock is still about to wake after a step that does not take its
    wake. -/
theorem LockWaking.keep (h : s.LockWaking) (hlock : s'.lock = s.lock)
    (hops : ∀ x op, s.ops.lookup x = some op →
      ∃ op', s'.ops.lookup x = some op' ∧ KeepsWaking op op')
    (hclosers : s.closers ≤ s'.closers)
    (hshutdown : s.shutdown = .closing ∨ s.shutdown = .waking → s'.shutdown = s.shutdown) :
    s'.LockWaking :=
  fun waker hw => isWaking_mono hops hclosers hshutdown (h waker (hlock ▸ hw))

theorem LockWaking.congr (h : s.LockWaking) (hlock : s'.lock = s.lock) (hops : s'.ops = s.ops)
    (hclosers : s.closers ≤ s'.closers)
    (hshutdown : s.shutdown = .closing ∨ s.shutdown = .waking → s'.shutdown = s.shutdown) :
    s'.LockWaking :=
  h.keep hlock (fun _ op hop => ⟨op, hops ▸ hop, id, fun _ => id⟩) hclosers hshutdown

theorem LockWaking.set (h : s.LockWaking) (hlock : s'.lock = s.lock)
    (hop : s.ops.lookup x = some op) (hops : s'.ops = s.ops.insert x op')
    (hkeeps : KeepsWaking op op') (hclosers : s.closers ≤ s'.closers)
    (hshutdown : s'.shutdown = s.shutdown) : s'.LockWaking := by
  refine h.keep hlock (fun y o ho => ?_) hclosers fun _ => hshutdown
  rw [hops]
  rcases eq_or_ne y x with rfl | hy
  · obtain rfl : op = o := Option.some.inj (hop.symm.trans ho)
    exact ⟨op', Finmap.lookup_insert _, hkeeps⟩
  · exact ⟨o, by rw [Finmap.lookup_insert_of_ne _ hy, ho], id, fun _ => id⟩

theorem keepsWaking_run (h : op.Run op') : KeepsWaking op op' := by
  refine ⟨fun hw => h.flags.2.1.trans hw, fun response hphase => ?_⟩
  cases h with
  | answer _ hp => rcases hp with hp | hp <;> rw [hp] at hphase <;> cases hphase
  | yield _ _ hp => rcases hp with hp | hp <;> rw [hp] at hphase <;> cases hphase
  | refuse hp | begin hp | hold hp | shutDown hp | skip hp | start hp | wait hp | report _ hp
  | close _ hp | decide _ hp | resume _ hp | finish hp =>
      rw [hp] at hphase
      cases hphase

theorem lock_free (h : s.lock = none) : s.LockWaking := fun waker hw => by
  rw [h] at hw
  cases hw

theorem step_lockWaking {l : Step} (ho : s.Ordered)
    (hok : ∀ x op, s.ops.lookup x = some op → op.Ok) (h : s.LockWaking)
    (hstep : s.step l = some s') : s'.LockWaking := by
  have hrank : ∀ {shutdown : Shutdown}, shutdown = .closing ∨ shutdown = .waking →
      shutdown.rank = 2 ∨ shutdown.rank = 5 := by
    rintro shutdown (rfl | rfl) <;> simp [Shutdown.rank]
  cases step_end hstep with
  | submit x lane semantics api hnew =>
      refine h.keep rfl (fun y o hy => ⟨o, ?_, id, fun _ => id⟩) (Nat.le_refl _) fun _ => rfl
      have hne : y ≠ x := fun heq => by
        rw [heq, hnew] at hy
        cases hy
      exact (Finmap.lookup_insert_of_ne _ hne).trans hy
  | enqueue x op hop hphase =>
      refine h.set rfl hop rfl ⟨id, fun response hp => ?_⟩ (Nat.le_refl _) rfl
      rw [hphase] at hp
      cases hp
  | cancel x op hop hcancelled =>
      refine h.set rfl hop rfl ⟨fun hw => ?_, fun _ => id⟩ (Nat.le_refl _) rfl
      have hidle := (hok x op hop).handler.mpr hcancelled
      rw [hw] at hidle
      cases hidle
  | run env lane x op op' _ hhead hop hrun hspec =>
      exact h.set hspec.lock hop hspec.ops (keepsWaking_run hspec.run) hspec.closers.ge
        hspec.shutdown
  | drain env lane hhead =>
      refine h.congr rfl rfl (Nat.le_refl _) fun hs => ?_
      have := ((ho.marked .events lane).mp (SerialQueue.mem_queue_of_head hhead)).2
      have := hrank hs
      simp only [Lane.markRank] at *
      omega
  | destroy env lane w hhead | destroyNothing env lane hhead =>
      refine h.congr rfl rfl (Nat.le_refl _) fun hs => ?_
      have := ((ho.marked .native lane).mp (SerialQueue.mem_queue_of_head hhead)).2
      have := hrank hs
      simp only [Lane.markRank] at *
      omega
  | wake waker hlock hwaking =>
      intro w hw
      obtain rfl : waker = w := Option.some.inj hw
      exact hwaking
  | wakeNothing waker hlock => exact lock_free ((woken_lock s waker).trans hlock)
  | woke env waker => exact lock_free (woken_lock _ waker)
  | returns x op hop =>
      have hset : (s.setOp x { op with returned := true }).LockWaking :=
        h.set rfl hop rfl ⟨id, fun _ => id⟩ (Nat.le_refl _) rfl
      unfold returns
      dsimp only
      split
      · exact hset.congr rfl rfl (Nat.le_succ _) fun _ => rfl
      · exact hset
  | close | release => exact h.congr rfl rfl (Nat.le_succ _) fun _ => rfl
  | shutdown _ hs | closing hs | addDrain hs | addDestroy hs =>
      refine h.congr rfl rfl (Nat.le_refl _) fun hw => ?_
      rw [hs] at hw
      rcases hw with hw | hw <;> cases hw
  | take | shutdownAgain | alert | deinit | deinitNothing =>
      exact h.congr rfl rfl (Nat.le_refl _) fun _ => rfl

/-! ## Every step pays -/

theorem work_returns (hop : s.ops.lookup x = some op) (hreturned : op.returned = false) :
    (s.returns x op).work + 1 ≤ s.work := by
  have hset := @work_set s (s.setOp x { op with returned := true }) x op _ hop rfl rfl rfl rfl rfl
  have hop' : Op.work { op with returned := true } + 3 = op.work := by simp [Op.work, hreturned]
  unfold returns
  dsimp only
  split
  · rw [work_close]
    omega
  · omega

/-- The storage is given away. -/
theorem work_storage (hops : s'.ops = s.ops) (hclosers : s'.closers = s.closers)
    (hlock : s'.lock = s.lock) (hshutdown : s'.shutdown = s.shutdown)
    (hstorage : s'.storage.work < s.storage.work) : s'.work + 1 ≤ s.work := by
  unfold work
  rw [hops, hclosers, hlock, hshutdown]
  omega

theorem step_pays {l : Step} (ho : s.Ordered) (hw : s.LockWaking) (hstep : s.step l = some s') :
    l.isOwn.toNat + s'.work ≤ s.work + l.budget := by
  cases step_end hstep with
  | submit x lane semantics api hnew =>
      have htotal := Finmap.total_insert_new (f := Op.work) (b := { lane, semantics, api }) hnew
      have hop : Op.work { lane, semantics, api } = 36 := rfl
      have hwork := @work_ops s (s.setOp x { lane, semantics, api }) rfl rfl rfl rfl
      simp only [setOp_ops, Step.isOwn, Step.budget, Bool.toNat_false] at hwork ⊢
      omega
  | enqueue x op hop hphase =>
      have hset := @work_set s ((s.setOp x { op with phase := .queued }).async op.lane (.op x)) x op
        _ hop rfl rfl rfl rfl rfl
      have := @Op.work_lt op { op with phase := .queued } rfl rfl
        (by simp [hphase, OpPhase.rank])
      simp only [Step.isOwn, Step.budget, Bool.toNat_true]
      omega
  | cancel x op hop hcancelled =>
      have hset := @work_set s (s.cancel x op) x op _ hop rfl rfl rfl rfl rfl
      have hwork : Op.work { op with
          cancelled := true
          handler := if op.running = true ∧ op.semantics = .cancellable then .waking else .done } ≤
          op.work + 2 := by
        unfold Op.work
        dsimp only
        split <;> split <;> omega
      simp only [Step.isOwn, Step.budget, Bool.toNat_false]
      omega
  | run env lane x op op' _ hhead hop hrun hspec =>
      have hset := work_set hop hspec.ops hspec.closers hspec.lock hspec.shutdown hspec.storage
      have := hspec.run.work
      simp only [Step.isOwn, Step.budget, Bool.toNat_true]
      omega
  | drain env lane hhead =>
      have hrank := ((ho.marked .events lane).mp (SerialQueue.mem_queue_of_head hhead)).2
      have := @work_shutdown s ({ s with shutdown := .waking }.pop lane) .waking rfl rfl rfl rfl
        (by rw [hrank]; decide) (Nat.le_refl _)
      simp only [Step.isOwn, Step.budget, Bool.toNat_true]
      omega
  | take env lane _ hstorage =>
      have := @work_storage s { s with storage := .taken } rfl rfl rfl rfl
        (by simp [hstorage, Storage.work])
      simp only [Step.isOwn, Step.budget, Bool.toNat_true]
      omega
  | destroy env lane w hhead hstorage =>
      have hrank := ((ho.marked .native lane).mp (SerialQueue.mem_queue_of_head hhead)).2
      have := @work_shutdown s ({ s with
        world := w
        storage := .destroyed
        destroys := s.destroys + 1
        shutdown := .finished }.pop .native) .finished rfl rfl rfl rfl (by rw [hrank]; decide)
        (by simp [hstorage, pop, Storage.work])
      simp only [Step.isOwn, Step.budget, Bool.toNat_true]
      omega
  | destroyNothing env lane hhead =>
      have hrank := ((ho.marked .native lane).mp (SerialQueue.mem_queue_of_head hhead)).2
      have := @work_shutdown s ({ s with shutdown := .finished }.pop .native) .finished rfl rfl rfl
        rfl (by rw [hrank]; decide) (Nat.le_refl _)
      simp only [Step.isOwn, Step.budget, Bool.toNat_true]
      omega
  | wake waker hlock =>
      simp only [work, hlock, Step.isOwn, Step.budget, Bool.toNat_true, if_true, reduceCtorEq,
        if_false]
      omega
  | wakeNothing waker _ hwaking =>
      have := woken_work hwaking
      simp only [Step.isOwn, Step.budget, Bool.toNat_true]
      omega
  | woke env waker w _ hlock =>
      have hwaking : { s with world := w, lock := none }.isWaking waker = true := hw waker hlock
      have := woken_work hwaking
      have hfree : work { s with world := w, lock := none } = s.work + 1 := by
        simp only [work, hlock, if_true, reduceCtorEq, if_false]
        omega
      simp only [Step.isOwn, Step.budget, Bool.toNat_true]
      omega
  | returns x op hop hreturned =>
      have := work_returns hop hreturned
      simp only [Step.isOwn, Step.budget, Bool.toNat_true]
      omega
  | close =>
      simp only [Step.isOwn, Step.budget, Bool.toNat_false, work_close]
      omega
  | release =>
      simp only [Step.isOwn, Step.budget, Bool.toNat_false, work_close]
      rw [@work_congr s { s with released := true } rfl rfl rfl rfl rfl]
      omega
  | shutdown _ hs =>
      have := @work_shutdown s { s with shutdown := .started } .started rfl rfl rfl rfl
        (by rw [hs]; decide) (Nat.le_refl _)
      simp only [Step.isOwn, Step.budget, Bool.toNat_false]
      omega
  | closing hs =>
      have := @work_shutdown s { s with closed := true, shutdown := .closing } .closing rfl rfl
        rfl rfl (by rw [hs]; decide) (Nat.le_refl _)
      simp only [Step.isOwn, Step.budget, Bool.toNat_true]
      omega
  | addDrain hs =>
      have := @work_shutdown s ({ s with shutdown := .draining }.async .events .drain) .draining
        rfl rfl rfl rfl (by rw [hs]; decide) (Nat.le_refl _)
      simp only [Step.isOwn, Step.budget, Bool.toNat_true]
      omega
  | addDestroy hs =>
      have := @work_shutdown s ({ s with shutdown := .destroying }.async .native .destroy)
        .destroying rfl rfl rfl rfl (by rw [hs]; decide) (Nat.le_refl _)
      simp only [Step.isOwn, Step.budget, Bool.toNat_true]
      omega
  | deinit w _ _ hstorage =>
      have := @work_storage s
        { s with world := w, storage := .destroyed, destroys := s.destroys + 1, gone := true }
        rfl rfl rfl rfl (by simp [hstorage, Storage.work])
      simp only [Step.isOwn, Step.budget, Bool.toNat_false]
      omega
  | alert | shutdownAgain | deinitNothing =>
      simp only [Step.isOwn, Step.budget, Bool.toNat_false, work]
      omega

/-! ## Rest -/

/-- Nothing is left to do: every operation has returned, nobody is about to wake, the lanes are
    empty, and a shutdown that has begun is finished. -/
structure AtRest (s : Host) : Prop where
  ops : ∀ x op, s.ops.lookup x = some op →
    op.phase = .finished ∧ op.returned = true ∧ op.handler ≠ .waking
  lanes : ∀ lane, (s.lanes lane).queue = []
  lock : s.lock = none
  closers : s.closers = 0
  shutdown : s.shutdownRests = true

/-- What holds after every run. -/
structure Live (s : Host) : Prop where
  sound : s.Sound
  calling : s.Calling
  waking : s.LockWaking
  inside : ∃ ws, Lts.exec World.step {} ws = some s.world
  taken : s.storage = .taken → s.shutdown = .destroying
  gone : s.gone = true → s.storage = .destroyed

theorem live_init : Live {} where
  sound := sound_init
  calling := calling_init
  waking := lock_free rfl
  inside := ⟨[], rfl⟩
  taken h := by cases h
  gone h := by cases h

theorem returns_fields (s : Host) (x : OpId) (op : Op) :
    (s.returns x op).storage = s.storage ∧ (s.returns x op).shutdown = s.shutdown ∧
      (s.returns x op).gone = s.gone := by
  unfold returns
  dsimp only
  split <;> exact ⟨rfl, rfl, rfl⟩

/-- The pointer is taken by the block of `shutdown()` only, which then destroys the session. -/
theorem step_taken {l : Step} (ho : s.Ordered)
    (h : s.storage = .taken → s.shutdown = .destroying) (hstep : s.step l = some s')
    (htaken : s'.storage = .taken) : s'.shutdown = .destroying := by
  have hnot : s.storage = .taken → s.shutdown.rank = 7 := fun hs => by rw [h hs]; rfl
  cases step_end hstep with
  | take env lane hhead =>
      have hrank := ((ho.marked .native lane).mp (SerialQueue.mem_queue_of_head hhead)).2
      cases hs : s.shutdown <;> simp [hs, Shutdown.rank, Lane.markRank] at hrank ⊢
  | run env lane x op op' _ hhead hop hrun hspec =>
      rw [hspec.shutdown]
      exact h (hspec.storage ▸ htaken)
  | drain env lane hhead =>
      have hrank := ((ho.marked .events lane).mp (SerialQueue.mem_queue_of_head hhead)).2
      have := hnot htaken
      simp only [Lane.markRank] at hrank
      omega
  | destroyNothing env lane _ hstorage => exact absurd (hstorage.symm.trans htaken) (by simp)
  | wakeNothing waker =>
      rw [woken_storage] at htaken
      rcases woken_shutdown s waker with heq | ⟨hs, _⟩ | ⟨hs, _⟩
      · exact heq.trans (h htaken)
      · exact absurd ((h htaken).symm.trans hs) (by simp)
      · exact absurd ((h htaken).symm.trans hs) (by simp)
  | woke env waker w =>
      rw [woken_storage] at htaken
      rcases woken_shutdown { s with world := w, lock := none } waker with heq | ⟨hs, _⟩ | ⟨hs, _⟩
      · exact heq.trans (h htaken)
      · exact absurd ((h htaken).symm.trans hs) (by simp)
      · exact absurd ((h htaken).symm.trans hs) (by simp)
  | returns x op =>
      obtain ⟨hstorage, hshutdown, _⟩ := returns_fields s x op
      exact hshutdown.trans (h (hstorage ▸ htaken))
  | shutdown _ hs | closing hs | addDrain hs | addDestroy hs =>
      have := hnot htaken
      rw [hs] at this
      cases this
  | destroy | deinit => cases htaken
  | submit | enqueue | cancel | wake | close | shutdownAgain | alert | release
  | deinitNothing => exact h htaken

/-- When the handle is gone, the session is destroyed. -/
theorem step_gone_destroyed {l : Step} (htaken : s.storage = .taken → s.shutdown = .destroying)
    (h : s.gone = true → s.storage = .destroyed) (hstep : s.step l = some s')
    (hgone : s'.gone = true) : s'.storage = .destroyed := by
  by_cases hbefore : s.gone = true
  · rcases step_storage hstep with ⟨heq, _⟩ | ⟨hs, _⟩ | ⟨hs, _⟩ | ⟨hs, _⟩
    · exact heq.trans (h hbefore)
    · exact absurd ((h hbefore).symm.trans hs) (by simp)
    · exact absurd ((h hbefore).symm.trans hs) (by simp)
    · exact absurd ((h hbefore).symm.trans hs) (by simp)
  · cases step_end hstep with
    | run env lane x op op' _ hhead hop hrun hspec => exact absurd (hspec.gone ▸ hgone) hbefore
    | wakeNothing waker => exact absurd (woken_gone s waker ▸ hgone) hbefore
    | woke env waker w =>
        exact absurd (woken_gone { s with world := w, lock := none } waker ▸ hgone) hbefore
    | returns x op => exact absurd ((returns_fields s x op).2.2 ▸ hgone) hbefore
    | deinit => rfl
    | deinitNothing _ hreferenced hstorage =>
        have hrests : s.shutdownRests = true := by
          simp only [isHandleReferenced, Bool.or_eq_false_iff, Bool.not_eq_eq_eq_not,
            Bool.not_false] at hreferenced
          exact hreferenced.1.1.1.1.1.2
        cases hs : s.storage with
        | held => exact absurd hs hstorage
        | taken =>
            rw [shutdownRests, htaken hs] at hrests
            cases hrests
        | destroyed => rfl
    | submit | enqueue | cancel | drain | take | destroy | destroyNothing | wake | close
    | shutdown | shutdownAgain | closing | addDrain | addDestroy | alert | release =>
        exact absurd hgone hbefore

theorem step_live {l : Step} (h : s.Live) (hstep : s.step l = some s') : s'.Live where
  sound := step_sound h.sound hstep
  calling := step_calling h.calling hstep
  waking := step_lockWaking h.sound.ordered h.sound.ops h.waking hstep
  inside := by
    obtain ⟨ws, hws⟩ := h.inside
    rcases step_inside hstep with heq | ⟨wl, hwl⟩
    · exact ⟨ws, heq ▸ hws⟩
    · exact ⟨ws ++ [wl], Lts.exec_snoc_eq_some.mpr ⟨s.world, hws, hwl⟩⟩
  taken := step_taken h.sound.ordered h.taken hstep
  gone := step_gone_destroyed h.taken h.gone hstep

theorem run_live {ls : List Step} (hrun : Lts.exec step {} ls = some s) : s.Live :=
  Lts.exec_invariant' Live live_init (fun _ _ _ h hstep => step_live h hstep) ls s hrun

theorem potential : Lts.Potential step Live work (fun l => l.isOwn.toNat) Step.budget where
  inv _ _ _ h hstep := step_live h hstep
  pays _ _ _ h hstep := step_pays h.sound.ordered h.waking hstep

/-- An order in which the containers of the session can be iterated. -/
theorem exists_iterated (s : Session) : ∃ env, s.iteratedBy env = true :=
  ⟨{ sampleEnvironment with
      jobsOrder := s.jobs.keys.toList
      mailboxOrder := s.events.jobs_.keys.toList }, by simp [Session.iteratedBy]⟩

/-- A native call begins, and a call that waits goes on. -/
theorem Live.call (h : s.Live) {c : CallId} (hfree : s.world.calls c = none) (api : Api) :
    ∃ env r, s.world.call env c api = some r := by
  obtain ⟨ws, hws⟩ := h.inside
  obtain ⟨env, hiterated⟩ := exists_iterated s.world.session
  have hdefined : (s.world.step (.call env c api)).isSome = true :=
    World.step_defined hws ⟨hfree, hiterated⟩
  obtain ⟨w, hw⟩ := Option.isSome_iff_exists.mp hdefined
  refine ⟨env, ?_⟩
  unfold World.call
  have hw' := hw
  simp only [World.step, Option.ite_none_left_eq_some, Option.map_eq_some_iff] at hw'
  obtain ⟨_, r, hr, _⟩ := hw'
  rw [hw, hr]
  exact ⟨_, rfl⟩

theorem Live.finish (h : s.Live) {c : CallId} {wait : Wait} (hwait : s.world.calls c = some wait) :
    ∃ env r, s.world.finish env c = some r := by
  obtain ⟨ws, hws⟩ := h.inside
  obtain ⟨env, hiterated⟩ := exists_iterated s.world.session
  have hdefined : (s.world.step (.resume env c)).isSome = true :=
    World.step_defined hws ⟨by rw [hwait]; rfl, hiterated⟩
  obtain ⟨w, hw⟩ := Option.isSome_iff_exists.mp hdefined
  obtain ⟨wait', res, hwait', hres, _⟩ := World.step_resume hw
  obtain rfl : wait = wait' := Option.some.inj (hwait.symm.trans hwait')
  refine ⟨env, (w, res.2), ?_⟩
  simp only [World.finish, hwait, hw, hres]

/-! ## Progress -/

theorem Live.not_waiting (h : s.Live) (hop : s.ops.lookup x = some op)
    (hphase : op.phase ≠ .waiting) : s.world.calls (x + 1) = none := by
  have hops := h.calling.ops x
  rw [waitingApi, hop, Option.bind_some, Op.waitingApi, if_neg hphase] at hops
  exact Option.map_eq_none_iff.mp hops

theorem Live.waiting (h : s.Live) (hop : s.ops.lookup x = some op) (hphase : op.phase = .waiting) :
    ∃ wait, s.world.calls (x + 1) = some wait := by
  have hops := h.calling.ops x
  rw [waitingApi, hop, Option.bind_some, Op.waitingApi, if_pos hphase] at hops
  obtain ⟨wait, hwait, -⟩ := Option.map_eq_some_iff.mp hops
  exact ⟨wait, hwait⟩

/-- The block of an operation goes on when it is at the head of its lane, nobody holds the lock
    and it need not wake. -/
theorem Live.op_goes_on (h : s.Live) (hop : s.ops.lookup x = some op)
    (hhead : (s.lanes op.lane).queue.head? = some (.op x)) (hqueue : op.phase.inQueue = true)
    (hlock : s.lock = none) (hclosing : ∀ response, op.phase ≠ .closing response) :
    ∃ env s', s.step (.run env op.lane) = some s' := by
  have hrun : ∀ env, s.step (.run env op.lane) = s.runOp env x op := fun env => by
    simp [step, run, hhead, hop]
  by_cases hcall : op.phase.usesPointer = true
  · cases hphase : op.phase with
    | calling =>
        obtain ⟨env, r, hr⟩ := h.call (h.not_waiting hop (by simp [hphase])) op.api
        simp only [hrun, runOp, hphase]
        exact ⟨env, _, by rw [hr, Option.map_some]⟩
    | waiting =>
        obtain ⟨wait, hwait⟩ := h.waiting hop hphase
        obtain ⟨env, r, hr⟩ := h.finish hwait
        simp only [hrun, runOp, hphase]
        exact ⟨env, _, by rw [hr, Option.map_some]⟩
    | reporting response =>
        obtain ⟨env, r, hr⟩ := h.call (h.not_waiting hop (by simp [hphase])) .takeLastError
        simp only [hrun, runOp, hphase]
        exact ⟨env, _, by rw [hr, Option.map_some]⟩
    | submitted | queued | begun | holding | answered | closing | executed | resuming | resumed
    | finished =>
        rw [hphase] at hcall
        cases hcall
  · obtain ⟨s', _, hs', -⟩ := head_goes_on hop hhead hqueue hlock (Bool.eq_false_iff.mpr hcall)
      hclosing sampleEnvironment
    exact ⟨sampleEnvironment, s', hs'⟩

/-- So does every other block. -/
theorem Live.head_goes_on (h : s.Live) (hlock : s.lock = none)
    (hwaking : ∀ waker, s.isWaking waker = false) {lane : Lane} {b : Block}
    (hhead : (s.lanes lane).queue.head? = some b) : ∃ env s', s.step (.run env lane) = some s' := by
  have hmem := SerialQueue.mem_queue_of_head hhead
  cases b with
  | op x =>
      obtain ⟨op, hop, rfl, hqueue⟩ := (h.sound.ordered.queued x lane).mp hmem
      refine h.op_goes_on hop hhead hqueue hlock fun response hphase => ?_
      have := hwaking (.closing x)
      simp [isWaking, hop, hphase] at this
  | drain =>
      refine ⟨sampleEnvironment, ?_⟩
      simp only [step, run, hhead]
      exact ⟨_, rfl⟩
  | destroy =>
      refine ⟨sampleEnvironment, ?_⟩
      simp only [step, run, hhead, runDestroy, hlock, Option.isSome_none, Bool.false_eq_true,
        if_false]
      cases s.storage <;> exact ⟨_, rfl⟩

theorem isOwn_step {l : Step} (hl : l.isOwn = true) (h : ∃ s', s.step l = some s') :
    ∃ l s', l.isOwn = true ∧ s.step l = some s' := by
  obtain ⟨s', hs'⟩ := h
  exact ⟨l, s', hl, hs'⟩

/-- A waker gets on: it takes the lock, or it finds the session gone. -/
theorem wake_goes_on {waker : Waker} (hlock : s.lock = none) (hwaking : s.isWaking waker = true) :
    ∃ s', s.step (.wake waker) = some s' := by
  simp only [step, hlock, hwaking, Option.isSome_none, Bool.not_true, Bool.or_self,
    Bool.false_eq_true, if_false]
  split
  · exact ⟨_, rfl⟩
  · exact ⟨_, rfl⟩

/-- The call of `shutdown()` gets on where it waits neither for a lane nor for a wake. -/
theorem advance_goes_on
    (h : s.shutdown = .started ∨ s.shutdown = .closed ∨ s.shutdown = .woken) :
    ∃ s', s.step .advance = some s' := by
  simp only [step, advance]
  rcases h with h | h | h <;> rw [h] <;> exact ⟨_, rfl⟩

/-- With empty lanes, an operation is about to be queued or its block is done. -/
theorem Live.phase_of_empty (h : s.Live) (hempty : ∀ lane, (s.lanes lane).queue = [])
    (hop : s.ops.lookup x = some op) : op.phase = .submitted ∨ op.phase = .finished := by
  have hnot : op.phase.inQueue ≠ true := fun hqueue => by
    have hmem := (h.sound.ordered.queued x op.lane).mpr ⟨op, hop, rfl, hqueue⟩
    rw [hempty] at hmem
    cases hmem
  cases hphase : op.phase <;> simp [hphase, OpPhase.inQueue] at hnot ⊢

/-- With empty lanes, a shutdown that waits for nothing rests. -/
theorem Live.shutdown_of_empty (h : s.Live) (hempty : ∀ lane, (s.lanes lane).queue = [])
    (hwaking : s.isWaking .shutdown = false)
    (hstuck : ¬ (s.shutdown = .started ∨ s.shutdown = .closed ∨ s.shutdown = .woken)) :
    s.shutdownRests = true := by
  have hmark : ∀ l : Lane, s.shutdown.rank ≠ l.markRank := fun l hrank => by
    have hmem := (h.sound.ordered.marked l l).mpr ⟨rfl, hrank⟩
    rw [hempty] at hmem
    cases hmem
  have hevents := hmark .events
  have hnative := hmark .native
  rw [shutdownRests_iff]
  cases hs : s.shutdown <;>
    simp [hs, isWaking, Shutdown.rank, Lane.markRank] at hwaking hstuck hevents hnative ⊢

/-- While the host is not at rest, one of its threads can take a step. -/
theorem Live.exists_own (h : s.Live) (hrest : ¬ s.AtRest) :
    ∃ l s', l.isOwn = true ∧ s.step l = some s' := by
  by_cases hlock : s.lock = none
  swap
  · -- `ltkit_session_wake` runs, and the lock is given back
    obtain ⟨waker, hw⟩ := Option.ne_none_iff_exists'.mp hlock
    obtain ⟨env, r, hr⟩ := h.call h.calling.wakers .wake
    refine isOwn_step (l := .woke env) rfl ?_
    simp only [step, hw, Option.bind_some, hr, Option.map_some]
    exact ⟨_, rfl⟩
  by_cases hwaking : ∃ waker, s.isWaking waker = true
  · obtain ⟨waker, hw⟩ := hwaking
    exact isOwn_step rfl (wake_goes_on hlock hw)
  have hasleep : ∀ waker, s.isWaking waker = false := fun waker =>
    Bool.eq_false_iff.mpr fun hw => hwaking ⟨waker, hw⟩
  by_cases hadvance : s.shutdown = .started ∨ s.shutdown = .closed ∨ s.shutdown = .woken
  · exact isOwn_step rfl (advance_goes_on hadvance)
  by_cases hempty : ∀ lane, (s.lanes lane).queue = []
  swap
  · obtain ⟨lane, hlane⟩ := not_forall.mp hempty
    obtain ⟨b, hhead⟩ : ∃ b, (s.lanes lane).queue.head? = some b :=
      ⟨_, List.head?_eq_some_head hlane⟩
    obtain ⟨env, hstep⟩ := h.head_goes_on hlock hasleep hhead
    exact isOwn_step rfl hstep
  -- what is left: a task that has yet to add its block, or an outcome that has yet to be returned
  by_contra hstuck
  refine hrest ⟨fun x op hop => ?_, hempty, hlock, ?_, h.shutdown_of_empty hempty
    (hasleep .shutdown) hadvance⟩
  · have hphase : op.phase = .finished := by
      refine (h.phase_of_empty hempty hop).resolve_left fun hsubmitted => hstuck ?_
      refine isOwn_step (l := .enqueue x) rfl ?_
      simp only [step, hop, Option.bind_some, hsubmitted, if_true]
      exact ⟨_, rfl⟩
    refine ⟨hphase, ?_, fun hhandler => ?_⟩
    · by_contra hreturned
      have houtcome := (h.sound.ops x op hop).outcome_iff.mpr (Or.inr hphase)
      refine hstuck (isOwn_step (l := .returns x) rfl ?_)
      simp only [step, hop, Option.bind_some, Bool.eq_false_iff.mpr hreturned, Bool.false_or,
        Option.isNone_eq_false_iff.mpr houtcome, Bool.false_eq_true, if_false]
      exact ⟨_, rfl⟩
    · have := hasleep (.handler x)
      simp [isWaking, hop, hhandler] at this
  · have := hasleep .closer
    simpa [isWaking] using this

/-- At rest there is nothing left to do. -/
theorem AtRest.stuck (h : s.AtRest) {l : Step} (hl : l.isOwn = true) : s.step l = none := by
  rw [Option.eq_none_iff_forall_not_mem]
  intro s' hstep
  have hhead : ∀ lane b, (s.lanes lane).queue.head? ≠ some b := fun lane b => by simp [h.lanes]
  have hrests := shutdownRests_iff.mp h.shutdown
  have hasleep : ∀ waker, s.isWaking waker = false := fun waker => by
    rw [Bool.eq_false_iff]
    intro hw
    cases waker with
    | handler x =>
        obtain ⟨op, hop, hwaking⟩ := isWaking_handler hw
        exact (h.ops x op hop).2.2 hwaking
    | closer => simp [isWaking, h.closers] at hw
    | closing x =>
        obtain ⟨op, response, hop, hphase⟩ := isWaking_closing hw
        exact absurd ((h.ops x op hop).1.symm.trans hphase) (by simp)
    | shutdown => rcases hrests with hs | hs <;> simp [isWaking, hs] at hw
  cases step_end hstep with
  | enqueue x op hop hphase => exact absurd ((h.ops x op hop).1.symm.trans hphase) (by simp)
  | run _ lane x _ _ _ hx => exact hhead lane _ hx
  | drain _ lane hx | take _ lane hx | destroy _ lane _ hx | destroyNothing _ lane hx =>
      exact hhead lane _ hx
  | wake waker _ hw | wakeNothing waker _ hw => exact absurd (hasleep waker ▸ hw) (by simp)
  | woke _ waker _ _ hlock => exact absurd (h.lock.symm.trans hlock) (by simp)
  | returns x op hop hreturned =>
      exact absurd ((h.ops x op hop).2.1.symm.trans hreturned) (by simp)
  | closing hs | addDrain hs | addDestroy hs => simp [hs] at hrests
  | submit | cancel | close | shutdown | shutdownAgain | alert | release | deinit
  | deinitNothing => cases hl

/-! ## The result -/

theorem Live.settle (h : s.Live) :
    ∃ ls t, (∀ l ∈ ls, l.isOwn = true) ∧ Lts.exec step s ls = some t ∧ t.AtRest :=
  potential.exists_done (fun _ => own_pays) (fun _ hs hrest => hs.exists_own hrest) h

theorem exec_live {ls : List Step} {t : Host} (h : s.Live) (hrun : Lts.exec step s ls = some t) :
    t.Live :=
  (potential.exec h hrun).1

/-- A shutdown that has begun does not become idle again. -/
theorem exec_shutdown {ls : List Step} {t : Host} (h : s.Live) (hs : s.shutdown.rank ≠ 0)
    (hrun : Lts.exec step s ls = some t) : t.shutdown.rank ≠ 0 := by
  have hinv := Lts.exec_invariant' (fun u : Host => u.Live ∧ u.shutdown.rank ≠ 0) ⟨h, hs⟩
    (fun u l u' hu hstep => ⟨step_live hu.1 hstep, by
      rcases step_shutdown hu.1.sound.ordered hstep with heq | ⟨hrank, _⟩
      · rw [heq]
        exact hu.2
      · omega⟩) ls t hrun
  exact hinv.2

/-- At rest, a shutdown that has begun has destroyed the session. -/
theorem AtRest.destroyed (h : s.AtRest) (hlive : s.Live) (hs : s.shutdown.rank ≠ 0) :
    s.shutdown = .finished ∧ s.destroys = 1 := by
  have hfinished : s.shutdown = .finished :=
    (shutdownRests_iff.mp h.shutdown).resolve_left fun hidle => hs (by rw [hidle]; rfl)
  refine ⟨hfinished, ?_⟩
  rw [hlive.sound.safe.destroys]
  cases hstorage : s.storage with
  | held => exact absurd hstorage (hlive.sound.safe.finished (by rw [hfinished]; decide))
  | taken => exact absurd ((hlive.taken hstorage).symm.trans hfinished) (by simp)
  | destroyed => rfl

/-- An operation of `s` has exactly one outcome, which it has returned, once the host is at
    rest. -/
theorem AtRest.outcome {ls : List Step} {t : Host} (ht : t.AtRest) (hlive : s.Live)
    (hrun : Lts.exec step s ls = some t) (hop : s.ops.lookup x = some op) :
    ∃ op', t.ops.lookup x = some op' ∧ op'.resumes = 1 ∧ op'.returned = true ∧
      (op.outcome.isSome = true → op'.outcome = op.outcome) := by
  obtain ⟨op', hop', hsettled⟩ := exec_op Op.Settled.refl Op.Settled.trans
    (fun hok hstep => Op.Step.settled hok hstep) hlive.sound.ops hrun hop
  obtain ⟨hphase, hreturned, -⟩ := ht.ops x op' hop'
  have hok := (exec_live hlive hrun).sound.ops x op' hop'
  refine ⟨op', hop', ?_, hreturned, fun ho => (hsettled ho).1⟩
  rw [hok.resumes, hok.outcome_iff.mpr (Or.inr hphase), if_pos rfl]

/-- From every state the threads of the process come to rest, whatever the order of their steps.
    They take at most 27 steps, and 36 for each operation and 2 for each cancellation and each
    close. Wherever they rest, every operation has returned the one outcome it has, and a shutdown
    that has begun has destroyed the session. -/
theorem threads_come_to_rest {ls : List Step} (hrun : Lts.exec step {} ls = some s) :
    (ls.map fun l => l.isOwn.toNat).sum + s.work ≤ 27 + (ls.map Step.budget).sum ∧
    (∀ more t, (∀ l ∈ more, l.isOwn = true) → Lts.exec step s more = some t →
      more.length + t.work ≤ s.work) ∧
    ((∀ l, l.isOwn = true → s.step l = none) ↔ s.AtRest) ∧
    (∃ more t, (∀ l ∈ more, l.isOwn = true) ∧ Lts.exec step s more = some t ∧ t.AtRest) ∧
    ∀ more t, Lts.exec step s more = some t → t.AtRest →
      (∀ x op, s.ops.lookup x = some op → ∃ op', t.ops.lookup x = some op' ∧ op'.resumes = 1 ∧
        op'.returned = true ∧ (op.outcome.isSome = true → op'.outcome = op.outcome)) ∧
      (s.shutdown ≠ .idle → t.shutdown = .finished ∧ t.destroys = 1) := by
  have hlive := run_live hrun
  refine ⟨(potential.exec live_init hrun).2,
    fun more t hmore ht => potential.length_le (fun _ => own_pays) hlive hmore ht,
    ⟨fun hstuck => ?_, fun hrest l hl => hrest.stuck hl⟩, hlive.settle, fun more t ht hrest =>
      ⟨fun x op hop => hrest.outcome hlive ht hop, fun hs => ?_⟩⟩
  · by_contra hrest
    obtain ⟨l, s', hl, hstep⟩ := hlive.exists_own hrest
    rw [hstuck l hl] at hstep
    cases hstep
  · refine hrest.destroyed (exec_live hlive ht) (exec_shutdown hlive (fun hrank => hs ?_) ht)
    cases hshutdown : s.shutdown <;> simp [hshutdown, Shutdown.rank] at hrank ⊢

/-- Two calls wait for their lanes, the second one cancelled, and the reader and the session are
    being closed. -/
def busyRun : List Step :=
  [.submit 0 .native .mutation (.add sampleRequest), .enqueue 0,
    .submit 1 .events .cancellable (.nextEvent 500), .enqueue 1,
    .run sampleEnvironment .events, .cancel 1, .close, .shutdown]

theorem busyRun_comes_to_rest :
    ∃ more t, (∀ l ∈ more, l.isOwn = true) ∧ Lts.exec step (after busyRun) more = some t ∧
      t.AtRest ∧ t.shutdown = .finished ∧ t.destroys = 1 := by
  have hrun : (Lts.exec step {} busyRun).isSome = true := by decide +kernel
  have hs : (after busyRun).shutdown ≠ .idle := by decide +kernel
  obtain ⟨-, -, -, ⟨more, t, hmore, ht, hrest⟩, hends⟩ := threads_come_to_rest (exec_after hrun)
  exact ⟨more, t, hmore, ht, hrest, (hends more t ht hrest).2 hs⟩

end Host

end LibtorrentKit
