/-
  Which operations are inside the native session.

  `Host.Calling`: a thread waits in the native session exactly when it is that of an operation
  whose closure waits there, in the call of the operation, with a wake generation that is not
  in the future. `step_wakeGeneration`: the host moves the generation only by its wakes.
-/
import LibtorrentKit.Session.Frames
import LibtorrentKit.Swift.Lanes

namespace LibtorrentKit

namespace World

/-- A call returns, and its thread is free, or it waits with the generation of that moment. -/
theorem call_spec {w w' : World} {env : Environment} {c : CallId} {api : Api}
    {answer : Option Response} (h : w.call env c api = some (w', answer)) :
    w.step (.call env c api) = some w' ∧ w'.calls = Function.update w.calls c
      (answer.elim (some ⟨api, w'.session.wakeGeneration⟩) fun _ => none) := by
  unfold call at h
  split at h
  · next w₁ r hstep henter =>
      obtain ⟨rfl, rfl⟩ := Prod.mk.inj (Option.some.inj h)
      refine ⟨hstep, ?_⟩
      simp only [step, Option.ite_none_left_eq_some, Option.map_eq_some_iff, henter,
        Option.some.injEq, exists_eq_left'] at hstep
      obtain ⟨_, rfl⟩ := hstep
      cases r.2 <;> rfl
  · cases h

/-- The thread of a call that returns is free. -/
theorem finish_spec {w w' : World} {env : Environment} {c : CallId} {response : Response}
    (h : w.finish env c = some (w', response)) :
    w.step (.resume env c) = some w' ∧ w'.calls = Function.update w.calls c none := by
  unfold finish at h
  split at h
  · cases h
  · next wait hwait =>
      split at h
      · next w₁ r hstep hresume =>
          obtain ⟨rfl, rfl⟩ := Prod.mk.inj (Option.some.inj h)
          refine ⟨hstep, ?_⟩
          simp only [step, hwait, Option.ite_none_left_eq_some, Option.map_eq_some_iff] at hstep
          obtain ⟨_, res, _, rfl⟩ := hstep
          rfl
      · cases h

theorem takeLastError_answers {w w' : World} {env : Environment} {c : CallId}
    {answer : Option Response} (h : w.call env c .takeLastError = some (w', answer)) :
    ∃ response, answer = some response := by
  unfold call at h
  split at h
  · next w₁ r hstep henter =>
      obtain ⟨rfl, rfl⟩ := Prod.mk.inj (Option.some.inj h)
      obtain rfl := Option.some.inj henter
      exact ⟨_, rfl⟩
  · cases h

theorem wake_answers {w w' : World} {env : Environment} {c : CallId}
    {answer : Option Response} (h : w.call env c .wake = some (w', answer)) :
    answer = some { code := .ok } := by
  unfold call at h
  split at h
  · next w₁ r hstep henter =>
      obtain ⟨rfl, rfl⟩ := Prod.mk.inj (Option.some.inj h)
      obtain rfl := Option.some.inj henter
      rfl
  · cases h

/-- A thread that does not wait can always wake the session. -/
theorem exists_wake {w : World} {c : CallId} (h : w.calls c = none) :
    ∃ env w' answer, w.call env c .wake = some (w', answer) := by
  let env : Environment := { sampleEnvironment with
    jobsOrder := w.session.jobs.keys.toList
    mailboxOrder := w.session.events.jobs_.keys.toList }
  have hiterated : w.session.iteratedBy env = true := by simp [Session.iteratedBy, env]
  have hsome : (w.call env c .wake).isSome = true := by
    simp [call, step, h, hiterated, Session.enter]
  obtain ⟨r, hr⟩ := Option.isSome_iff_exists.mp hsome
  exact ⟨env, r.1, r.2, hr⟩

theorem step_calls {w w' : World} {l : Step} (h : w.step l = some w')
    (hl : (∃ env alert, l = .alert env alert) ∨ l = .destroy) : w'.calls = w.calls := by
  rcases hl with ⟨env, alert, rfl⟩ | rfl
  · simp only [step, Option.ite_none_left_eq_some, Option.map_eq_some_iff] at h
    obtain ⟨_, s, _, rfl⟩ := h
    rfl
  · obtain rfl := Option.some.inj h
    rfl

end World

namespace Host

/-- What the block of an operation does to the native session. -/
inductive RunWorld (s s' : Host) (env : Environment) (x : OpId) (op op' : Op) : Prop
  | none (hphase : op.phase.usesPointer = false) (hphase' : op'.phase ≠ .waiting)
      (h : s'.world = s.world)
  | call (answer : Option Response) (hphase : op.phase = .calling)
      (h : s.world.call env (x + 1) op.api = some (s'.world, answer))
      (hphase' : op'.phase = answer.elim .waiting .answered)
  | finish (response : Response) (hphase : op.phase = .waiting)
      (h : s.world.finish env (x + 1) = some (s'.world, response))
      (hphase' : op'.phase = .answered response)
  | report (answer : Option Response) (response : Response) (hphase : op.phase = .reporting response)
      (h : s.world.call env (x + 1) .takeLastError = some (s'.world, answer))
      (hphase' : op'.phase = .executed (.native response answer))

theorem runOp_world {s s' : Host} {env : Environment} {x : OpId} {op op' : Op}
    (h : s.runOp env x op = some s') (hspec : RunOp s s' x op op') : RunWorld s s' env x op op' := by
  have hself : s'.ops.lookup x = some op' := by rw [hspec.ops, Finmap.lookup_insert]
  by_cases huses : op.phase.usesPointer = false
  · refine .none huses (fun hw => ?_) (hspec.world huses)
    cases hspec.run with
    | wait hphase => simp [hphase, OpPhase.usesPointer] at huses
    | _ => cases hw
  · rw [Bool.not_eq_false] at huses
    cases hphase : op.phase with
    | calling =>
        simp only [runOp, hphase] at h
        obtain ⟨⟨w, answer⟩, hcall, rfl⟩ := Option.map_eq_some_iff.mp h
        rw [setOp_ops, Finmap.lookup_insert] at hself
        exact .call answer hphase hcall (Option.some.inj hself ▸ rfl)
    | waiting =>
        simp only [runOp, hphase] at h
        obtain ⟨⟨w, response⟩, hcall, rfl⟩ := Option.map_eq_some_iff.mp h
        rw [setOp_ops, Finmap.lookup_insert] at hself
        exact .finish response hphase hcall (Option.some.inj hself ▸ rfl)
    | reporting response =>
        simp only [runOp, hphase] at h
        obtain ⟨⟨w, answer⟩, hcall, rfl⟩ := Option.map_eq_some_iff.mp h
        rw [setOp_ops, Finmap.lookup_insert] at hself
        exact .report answer response hphase hcall (Option.some.inj hself ▸ rfl)
    | _ =>
        rw [hphase] at huses
        cases huses

/-! ## Waits -/

/-- The call in which the closure of an operation waits. -/
def Op.waitingApi (op : Op) : Option Api := if op.phase = .waiting then some op.api else none

def waitingApi (s : Host) (x : OpId) : Option Api := (s.ops.lookup x).bind Op.waitingApi

/-- The threads that wait in the native session are those of the operations that wait there. -/
structure Calling (s : Host) : Prop where
  ops : ∀ x, (s.world.calls (x + 1)).map Wait.api = s.waitingApi x
  wakers : s.world.calls 0 = none
  generation : ∀ c wait, s.world.calls c = some wait →
    wait.generation ≤ s.world.session.wakeGeneration

theorem waitingApi_insert {s s' : Host} {x : OpId} {op : Op} (h : s'.ops = s.ops.insert x op) :
    s'.waitingApi = Function.update s.waitingApi x (Op.waitingApi op) := opAt_insert h

theorem touch_waitingApi {op op' : Op} (h : op.Touch op') :
    Op.waitingApi op' = Op.waitingApi op := by
  cases h with
  | enqueue hphase => simp [Op.waitingApi, hphase]
  | closed response hphase => simp [Op.waitingApi, hphase, Op.yield]
  | cancel | woken | returns => rfl

theorem waitingApi_same {s s' : Host} (h : s'.ops = s.ops) : s'.waitingApi = s.waitingApi :=
  opAt_congr h

theorem waitingApi_submit {s s' : Host} {x : OpId} {op : Op} (hnew : s.ops.lookup x = none)
    (hphase : op.phase = .submitted) (h : s'.ops = s.ops.insert x op) :
    s'.waitingApi = s.waitingApi :=
  opAt_submit hnew h (by simp [Op.waitingApi, hphase])

theorem waitingApi_touch {s s' : Host} {x : OpId} {op op' : Op} (hop : s.ops.lookup x = some op)
    (htouch : op.Touch op') (h : s'.ops = s.ops.insert x op') : s'.waitingApi = s.waitingApi :=
  opAt_same hop h (touch_waitingApi htouch)

theorem woken_waitingApi (s : Host) (waker : Waker) :
    (s.woken waker).waitingApi = s.waitingApi :=
  opAt_woken waker fun _ _ _ _ htouch => touch_waitingApi htouch

theorem Calling.keep {s s' : Host} (h : s.Calling) (hcalls : s'.world.calls = s.world.calls)
    (hgeneration : s.world.session.wakeGeneration ≤ s'.world.session.wakeGeneration)
    (hops : s'.waitingApi = s.waitingApi) : s'.Calling where
  ops x := by rw [hcalls, hops, h.ops]
  wakers := hcalls ▸ h.wakers
  generation c wait hw := (h.generation c wait (hcalls ▸ hw)).trans hgeneration

theorem world_generation {w w' : World} {l : LibtorrentKit.Step} (h : w.step l = some w') :
    w.session.wakeGeneration ≤ w'.session.wakeGeneration := by
  rw [World.step_wakeGeneration h]
  exact Nat.le_add_right _ _

/-- The thread of one operation gets a new call or loses it. -/
theorem Calling.set {s s' : Host} {x : OpId} {op' : Op} {o : Option Wait} (h : s.Calling)
    (hcalls : s'.world.calls = Function.update s.world.calls (x + 1) o)
    (hgeneration : s.world.session.wakeGeneration ≤ s'.world.session.wakeGeneration)
    (hops : s'.ops = s.ops.insert x op') (hself : o.map Wait.api = Op.waitingApi op')
    (hnew : ∀ wait, o = some wait → wait.generation ≤ s'.world.session.wakeGeneration) :
    s'.Calling where
  ops y := by
    rw [hcalls, waitingApi_insert hops]
    by_cases hyx : y = x
    · subst hyx
      rw [Function.update_self, Function.update_self, hself]
    · rw [Function.update_of_ne fun heq => hyx (Nat.succ.inj heq), Function.update_of_ne hyx,
        h.ops]
  wakers := by
    rw [hcalls, Function.update_of_ne (Nat.succ_ne_zero x).symm]
    exact h.wakers
  generation c wait hw := by
    rw [hcalls] at hw
    by_cases hc : c = x + 1
    · subst hc
      rw [Function.update_self] at hw
      exact hnew wait hw
    · rw [Function.update_of_ne hc] at hw
      exact (h.generation c wait hw).trans hgeneration

theorem runOp_calling {s s' : Host} {env : Environment} {x : OpId} {op op' : Op} (h : s.Calling)
    (hop : s.ops.lookup x = some op) (hspec : RunOp s s' x op op')
    (hworld : RunWorld s s' env x op op') : s'.Calling := by
  cases hworld with
  | none hphase hphase' heq =>
      have hnone : (s.world.calls (x + 1)) = none := by
        have hmap := h.ops x
        have hnot : op.phase ≠ .waiting := fun hw => by
          rw [hw] at hphase
          cases hphase
        rw [waitingApi, hop, Option.bind_some, Op.waitingApi, if_neg hnot] at hmap
        simpa using hmap
      refine h.set (o := none) ?_ (by rw [heq]) hspec.ops ?_ (by simp)
      · rw [heq, ← hnone, Function.update_eq_self]
      · rw [Op.waitingApi, if_neg hphase']
        rfl
  | call answer hphase hcall hphase' =>
      obtain ⟨hstep, hcalls⟩ := World.call_spec hcall
      refine h.set hcalls (world_generation hstep) hspec.ops ?_ ?_
      · rw [Op.waitingApi, hphase', hspec.run.kept.2.2]
        cases answer <;> simp
      · intro wait hw
        cases answer with
        | none => exact (Option.some.inj hw) ▸ le_rfl
        | some response => cases hw
  | finish response hphase hfinish hphase' =>
      obtain ⟨hstep, hcalls⟩ := World.finish_spec hfinish
      refine h.set hcalls (world_generation hstep) hspec.ops ?_ (by simp)
      rw [Op.waitingApi, hphase', if_neg (by simp)]
      rfl
  | report answer response hphase hcall hphase' =>
      obtain ⟨hstep, hcalls⟩ := World.call_spec hcall
      obtain ⟨answered, rfl⟩ := World.takeLastError_answers hcall
      refine h.set hcalls (world_generation hstep) hspec.ops ?_ (by simp)
      rw [Op.waitingApi, hphase', if_neg (by simp)]
      rfl

theorem step_calling {s s' : Host} {l : Step} (h : s.Calling) (hstep : s.step l = some s') :
    s'.Calling := by
  have hworld : ∀ {t : Host}, t.world = s.world → t.waitingApi = s.waitingApi → t.Calling :=
    fun hw hops => h.keep (by rw [hw]) (by rw [hw]) hops
  cases step_end hstep with
  | submit x lane semantics api hnew => exact hworld rfl (waitingApi_submit hnew rfl rfl)
  | enqueue x op hop hphase => exact hworld rfl (waitingApi_touch hop (.enqueue hphase) rfl)
  | cancel x op hop hcancelled => exact hworld rfl (waitingApi_touch hop (.cancel hcancelled) rfl)
  | run env lane x op op' _ hhead hop hrun hspec =>
      exact runOp_calling h hop hspec (runOp_world hrun hspec)
  | wakeNothing waker => exact hworld (woken_world s waker) (woken_waitingApi s waker)
  | woke env waker w answer hlock hcall =>
      obtain ⟨hw, hcalls⟩ := World.call_spec hcall
      have hsame : w.calls = s.world.calls := by
        rw [hcalls, World.wake_answers hcall, Option.elim_some, ← h.wakers]
        exact Function.update_eq_self _ _
      refine h.keep ?_ ?_ (woken_waitingApi _ waker)
      · rw [woken_world]
        exact hsame
      · rw [woken_world]
        exact world_generation hw
  | returns x op hop _ houtcome =>
      refine hworld ?_ (waitingApi_touch hop (.returns houtcome) ?_)
      · unfold returns
        dsimp only
        split <;> rfl
      · unfold returns
        dsimp only
        split <;> rfl
  | destroy env lane w hhead hstorage hw =>
      exact h.keep (World.step_calls hw (Or.inr rfl)) (world_generation hw) (waitingApi_same rfl)
  | alert env alert w hstorage hw =>
      exact h.keep (World.step_calls hw (Or.inl ⟨_, _, rfl⟩)) (world_generation hw)
        (waitingApi_same rfl)
  | deinit w _ _ hstorage hw =>
      exact h.keep (World.step_calls hw (Or.inr rfl)) (world_generation hw) (waitingApi_same rfl)
  | drain | take | destroyNothing | wake | close | shutdown | shutdownAgain | closing | addDrain
  | addDestroy | release | deinitNothing => exact hworld rfl (waitingApi_same rfl)

theorem calling_init : Calling {} :=
  ⟨fun x => by simp [waitingApi], rfl, fun c wait hw => by cases hw⟩

/-- After every run the threads that wait are those of the operations that do. -/
theorem run_calling {ls : List Step} {s : Host} (hrun : Lts.exec step {} ls = some s) :
    s.Calling :=
  Lts.exec_invariant' Calling calling_init
    (fun _ _ _ h hstep => step_calling h hstep) ls s hrun

/-! ## Wakes -/

/-- A wake adds one to the generation; the other calls leave it alone. -/
theorem call_wakeGeneration {w w' : World} {env : Environment} {c : CallId} {api : Api}
    {answer : Option Response} (h : w.call env c api = some (w', answer)) :
    w'.session.wakeGeneration = w.session.wakeGeneration + if api = .wake then 1 else 0 := by
  have hwake : (LibtorrentKit.Step.call env c api).isWake = decide (api = .wake) := by
    cases api <;> rfl
  rw [World.step_wakeGeneration (World.call_spec h).1, hwake]
  simp

/-- The host moves the generation only by the wakes that hold the lock. -/
theorem step_wakeGeneration {s s' : Host} {l : Step}
    (hmay : ∀ x op, s.ops.lookup x = some op → op.Permitted) (hstep : s.step l = some s') :
    (s'.world.session.wakeGeneration = s.world.session.wakeGeneration ∧ ∀ env, l ≠ .woke env) ∨
      ∃ env waker, l = .woke env ∧ s.lock = some waker ∧
        s'.world.session.wakeGeneration = s.world.session.wakeGeneration + 1 := by
  have hkept : s'.world.session.wakeGeneration = s.world.session.wakeGeneration →
      (∀ env, l ≠ .woke env) →
      (s'.world.session.wakeGeneration = s.world.session.wakeGeneration ∧ ∀ env, l ≠ .woke env) ∨
        ∃ env waker, l = .woke env ∧ s.lock = some waker ∧
          s'.world.session.wakeGeneration = s.world.session.wakeGeneration + 1 :=
    fun heq hl => Or.inl ⟨heq, hl⟩
  cases step_end hstep with
  | run env lane x op op' _ hhead hop hrun hspec =>
      refine hkept ?_ (by simp)
      cases runOp_world hrun hspec with
      | none _ _ heq => rw [heq]
      | call answer _ hcall =>
          rw [call_wakeGeneration hcall, if_neg (hmay x op hop).not_wake, Nat.add_zero]
      | finish response _ hfinish =>
          rw [World.step_wakeGeneration (World.finish_spec hfinish).1]
          rfl
      | report answer response _ hcall =>
          rw [call_wakeGeneration hcall, if_neg (by simp), Nat.add_zero]
  | woke env waker w answer hlock hcall =>
      refine Or.inr ⟨env, waker, rfl, hlock, ?_⟩
      rw [woken_world]
      exact call_wakeGeneration hcall
  | wakeNothing waker => exact hkept (by rw [woken_world]) (by simp)
  | returns x op =>
      refine hkept ?_ (by simp)
      unfold returns
      dsimp only
      split <;> rfl
  | destroy env lane w hhead hstorage hw => exact hkept (World.step_wakeGeneration hw) (by simp)
  | deinit w _ _ hstorage hw => exact hkept (World.step_wakeGeneration hw) (by simp)
  | alert env alert w hstorage hw => exact hkept (World.step_wakeGeneration hw) (by simp)
  | submit | enqueue | cancel | drain | take | destroyNothing | wake | close | shutdown
  | shutdownAgain | closing | addDrain | addDestroy | release | deinitNothing =>
      exact hkept rfl (by simp)

end Host

end LibtorrentKit
