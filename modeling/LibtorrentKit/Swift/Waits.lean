/-
  Metadata and checkpoint waits, and the wakes that are to end them.

  A wait ends at a wake when the generation it has sampled is no longer the current one
  (`LongWait`). The operation samples it inside its native call, long after `begin()`: a
  handler that runs in between, or the wake of a shutdown that an operation still queues
  behind, has nothing to end. `no_wake_lost_iff` shows that this is the only way in which a
  wake is lost.
-/
import LibtorrentKit.Swift.Lifetime
import LibtorrentKit.Swift.Outcomes

namespace LibtorrentKit

/-- The calls that wait for a torrent. -/
def Api.isLongWait : Api → Bool
  | .metadata _ _ => true
  | .checkpoint _ _ _ => true
  | _ => false

/-- `NativeSessionExecutor.shutdown` has woken the session. -/
def Shutdown.hasWoken : Shutdown → Bool
  | .woken => true
  | .destroying => true
  | .finished => true
  | _ => false

theorem Shutdown.hasWoken_iff {shutdown : Shutdown} :
    shutdown.hasWoken = true ↔ 6 ≤ shutdown.rank := by
  cases shutdown <;> decide

/-- An environment in which metadata does not arrive. -/
def magnetEnvironment : Environment := { sampleEnvironment with torrentFile := fun _ => none }

namespace Host

/-- The closure of `x` waits in a metadata or checkpoint call, which has sampled `generation`. -/
structure LongWait (s : Host) (x : OpId) (op : Op) (generation : Nat) : Prop where
  found : s.ops.lookup x = some op
  long : op.api.isLongWait = true
  waits : s.world.calls (x + 1) = some ⟨op.api, generation⟩

/-- The operation whose native call begins to wait with a step. -/
def entering (s : Host) : Step → Option (OpId × Op)
  | .run env lane =>
      match (s.lanes lane).queue.head? with
      | some (.op x) => (s.ops.lookup x).bind fun op =>
          if op.phase = .calling ∧
            (s.world.call env (x + 1) op.api).any (fun r => r.2.isNone) = true then some (x, op)
          else none
      | _ => none
  | _ => none

/-! ## How waits begin -/

theorem entering_cases {s : Host} {l : Step} {x : OpId} {op : Op}
    (h : s.entering l = some (x, op)) : ∃ env lane w, l = .run env lane ∧
      (s.lanes lane).queue.head? = some (.op x) ∧ s.ops.lookup x = some op ∧
      op.phase = .calling ∧ s.world.call env (x + 1) op.api = some (w, none) := by
  cases l with
  | run env lane =>
      simp only [entering] at h
      split at h
      · next y hhead =>
          obtain ⟨op₀, hop, h⟩ := Option.bind_eq_some_iff.mp h
          obtain ⟨⟨hphase, hcall⟩, h⟩ := Option.ite_none_right_eq_some.mp h
          obtain ⟨rfl, rfl⟩ := Prod.mk.inj (Option.some.inj h)
          obtain ⟨⟨w, answer⟩, hcall, hnone⟩ := (Option.any_eq_true _ _).mp hcall
          obtain rfl : answer = none := by simpa using hnone
          exact ⟨env, lane, w, rfl, hhead, hop, hphase, hcall⟩
      · cases h
  | _ => cases h

/-- The call begins to wait, with the generation of that moment; nothing else changes. -/
theorem entering_step {s s' : Host} {l : Step} {x : OpId} {op : Op}
    (h : s.entering l = some (x, op)) (hstep : s.step l = some s') :
    ∃ w, s' = { s with world := w }.setOp x { op with phase := .waiting } ∧
      w.calls (x + 1) = some ⟨op.api, w.session.wakeGeneration⟩ := by
  obtain ⟨env, lane, w, rfl, hhead, hop, hphase, hcall⟩ := entering_cases h
  refine ⟨w, ?_, ?_⟩
  · simp only [step, run, hhead, hop, Option.bind_some, runOp, hphase, hcall, Option.map_some,
      Option.some.injEq] at hstep
    exact hstep.symm
  · rw [(World.call_spec hcall).2, Function.update_self, Option.elim_none]

/-- A thread that waits after a step has waited before, or begins to with the step. -/
theorem step_waits {s s' : Host} {l : Step} (hstep : s.step l = some s') {x : OpId}
    {wait : Wait} (hwait : s'.world.calls (x + 1) = some wait) :
    s.world.calls (x + 1) = some wait ∨ ∃ op, s.entering l = some (x, op) ∧
      wait = ⟨op.api, s'.world.session.wakeGeneration⟩ := by
  have hset : ∀ {t : World} {y : OpId} {o : Option Wait},
      t.calls = Function.update s.world.calls (y + 1) o → t.calls (x + 1) = some wait →
      s.world.calls (x + 1) = some wait ∨ (x = y ∧ o = some wait) := by
    intro t y o ht hw
    rw [ht] at hw
    by_cases hxy : x = y
    · subst hxy
      exact Or.inr ⟨rfl, by rwa [Function.update_self] at hw⟩
    · rw [Function.update_of_ne fun heq => hxy (Nat.succ.inj heq)] at hw
      exact Or.inl hw
  cases step_end hstep with
  | run env lane y op op' _ hhead hop hrun hspec =>
      cases runOp_world hrun hspec with
      | none _ _ heq => exact Or.inl (heq ▸ hwait)
      | call answer hphase hcall _ =>
          obtain ⟨_, hcalls⟩ := World.call_spec hcall
          rcases hset hcalls hwait with hw | ⟨rfl, hw⟩
          · exact Or.inl hw
          · cases answer with
            | some response => cases hw
            | none =>
                refine Or.inr ⟨op, ?_, (Option.some.inj hw).symm⟩
                simp [entering, hhead, hop, hphase, hcall]
      | finish response _ hfinish _ =>
          rcases hset (World.finish_spec hfinish).2 hwait with hw | ⟨_, hw⟩
          · exact Or.inl hw
          · cases hw
      | report answer response _ hcall _ =>
          obtain ⟨answered, rfl⟩ := World.takeLastError_answers hcall
          rcases hset (World.call_spec hcall).2 hwait with hw | ⟨_, hw⟩
          · exact Or.inl hw
          · cases hw
  | woke env waker w answer hlock hcall =>
      rw [woken_world, (World.call_spec hcall).2, Function.update_of_ne (Nat.succ_ne_zero x)]
        at hwait
      exact Or.inl hwait
  | destroy env lane w _ _ hw => exact Or.inl (World.step_calls hw (Or.inr rfl) ▸ hwait)
  | deinit w _ _ _ hw => exact Or.inl (World.step_calls hw (Or.inr rfl) ▸ hwait)
  | alert env alert w _ hw => exact Or.inl (World.step_calls hw (Or.inl ⟨_, _, rfl⟩) ▸ hwait)
  | wakeNothing waker => exact Or.inl (woken_world s waker ▸ hwait)
  | returns y op =>
      unfold returns at hwait
      dsimp only at hwait
      split at hwait <;> exact Or.inl hwait
  | submit | enqueue | cancel | drain | take | destroyNothing | wake | close | shutdown
  | shutdownAgain | closing | addDrain | addDestroy | release | deinitNothing => exact Or.inl hwait

theorem LongWait.phase {s : Host} (hcalling : s.Calling) {x : OpId} {op : Op} {generation : Nat}
    (h : s.LongWait x op generation) : op.phase = .waiting := by
  have hmap := hcalling.ops x
  rw [h.waits, waitingApi, h.found, Option.bind_some, Op.waitingApi] at hmap
  by_contra hnot
  rw [if_neg hnot] at hmap
  cases hmap

/-- A wait after a step was there before, or begins with the step. -/
theorem step_longWait {s s' : Host} {l : Step} (hcalling : s.Calling)
    (hstep : s.step l = some s') {x : OpId} {op' : Op} {generation : Nat}
    (h : s'.LongWait x op' generation) :
    (∃ op, s.LongWait x op generation ∧ (op' = op ∨ op.Touch op')) ∨
      ∃ op, s.entering l = some (x, op) ∧ op' = { op with phase := .waiting } ∧
        generation = s'.world.session.wakeGeneration := by
  have hcalling' := step_calling hcalling hstep
  rcases step_waits hstep h.waits with hwait | ⟨op, hentering, heq⟩
  · have hmap := hcalling.ops x
    rw [hwait, waitingApi] at hmap
    obtain ⟨op, hop, hself⟩ := Option.bind_eq_some_iff.mp hmap.symm
    have hphase : op.phase = .waiting := by
      by_contra hnot
      rw [Op.waitingApi, if_neg hnot] at hself
      cases hself
    obtain ⟨op₁, hop₁, hmoved⟩ := (step_ops hstep).op hop
    obtain rfl := Option.some.inj (h.found.symm.trans hop₁)
    have hmoved : op' = op ∨ op.Touch op' := by
      rcases hmoved with heq | hspec | htouch
      · exact Or.inl heq
      · -- the block of `x` has left the wait
        have hw := h.phase hcalling'
        cases hspec.run with
        | wait hcall =>
            rw [hphase] at hcall
            cases hcall
        | _ => cases hw
      · exact Or.inr htouch
    have hapi : op'.api = op.api := by
      rcases hmoved with rfl | htouch
      · rfl
      · exact htouch.kept.2.2
    exact Or.inl ⟨op, ⟨hop, hapi ▸ h.long, hapi ▸ hwait⟩, hmoved⟩
  · obtain ⟨w, rfl, _⟩ := entering_step hentering hstep
    have hfound := h.found
    rw [setOp_ops, Finmap.lookup_insert] at hfound
    exact Or.inr ⟨op, hentering, (Option.some.inj hfound).symm, (Wait.mk.inj heq).2⟩

/-- The current generation is what a wait samples that begins. -/
theorem entering_longWait {s s' : Host} {l : Step} {x : OpId} {op : Op}
    (h : s.entering l = some (x, op)) (hstep : s.step l = some s')
    (hlong : op.api.isLongWait = true) :
    s'.LongWait x { op with phase := .waiting } s'.world.session.wakeGeneration := by
  obtain ⟨w, rfl, hwait⟩ := entering_step h hstep
  exact ⟨by rw [setOp_ops, Finmap.lookup_insert], hlong, hwait⟩

/-- The storage has the pointer while a call waits. -/
theorem LongWait.held {s : Host} (hs : s.Sound) (hcalling : s.Calling) {x : OpId} {op : Op}
    {generation : Nat} (h : s.LongWait x op generation) : s.storage = .held := by
  by_contra hnot
  have hclosure := hs.safe.not_inClosure hs.ops hnot h.found
  rw [h.phase hcalling] at hclosure
  cases hclosure

/-! ## Wakes that are still to come -/

/-- Neither the handler of the operation nor `NativeSessionExecutor.shutdown` has woken the
    session. -/
def WakesToCome (s : Host) (op : Op) : Prop := op.handler ≠ .done ∧ s.shutdown.hasWoken = false

theorem step_hasWoken {s s' : Host} {l : Step} (ho : s.Ordered) (hheld : s.storage = .held)
    (hstep : s.step l = some s') (hl : ∀ env, l ≠ .woke env) (h : s.shutdown.hasWoken = false) :
    s'.shutdown.hasWoken = false := by
  have hdestroy : ∀ {lane : Lane}, (s.lanes lane).queue.head? ≠ some .destroy := by
    intro lane hhead
    have hrank : s.shutdown.rank = 7 :=
      ((ho.marked .native lane).mp (SerialQueue.mem_queue_of_head hhead)).2
    have hwoken := Shutdown.hasWoken_iff.mpr (by omega : 6 ≤ s.shutdown.rank)
    rw [h] at hwoken
    cases hwoken
  cases step_end hstep with
  | run env lane y op op' _ hhead hop hrun hspec => exact hspec.shutdown ▸ h
  | destroy env lane w hhead => exact absurd hhead hdestroy
  | destroyNothing env lane hhead => exact absurd hhead hdestroy
  | wakeNothing waker _ _ hnot => exact absurd hheld hnot
  | woke env => exact absurd rfl (hl env)
  | addDestroy hwoken =>
      rw [hwoken] at h
      cases h
  | returns y op =>
      unfold returns
      dsimp only
      split <;> exact h
  | drain | shutdown | closing | addDrain => rfl
  | submit | enqueue | cancel | take | wake | close | shutdownAgain | alert | release | deinit
  | deinitNothing => exact h

/-- As long as no wake is carried out, a handler that is to wake stays so. -/
theorem step_handler {s s' : Host} {l : Step} (hheld : s.storage = .held)
    (hstep : s.step l = some s') (hl : ∀ env, l ≠ .woke env) {x : OpId} {op op' : Op}
    (hop : s.ops.lookup x = some op) (hop' : s'.ops.lookup x = some op')
    (hrunning : op.running = true) (hcancellable : op.semantics = .cancellable)
    (h : op.handler ≠ .done) : op'.handler ≠ .done := by
  have hsame : s'.ops = s.ops → op'.handler ≠ .done := by
    intro heq
    rw [heq, hop] at hop'
    exact Option.some.inj hop' ▸ h
  have hinsert : ∀ {y : OpId} {o : Op}, s'.ops = s.ops.insert y o →
      (x = y → o.handler ≠ .done) → op'.handler ≠ .done := by
    intro y o heq ho
    rw [heq] at hop'
    by_cases hxy : x = y
    · subst hxy
      rw [Finmap.lookup_insert] at hop'
      exact Option.some.inj hop' ▸ ho rfl
    · rw [Finmap.lookup_insert_of_ne _ hxy, hop] at hop'
      exact Option.some.inj hop' ▸ h
  have hmine : ∀ {y : OpId} {o : Op}, s.ops.lookup y = some o → x = y → op = o := by
    rintro y o ho rfl
    exact Option.some.inj (hop.symm.trans ho)
  cases step_end hstep with
  | submit y lane semantics api hnew => exact hinsert (setOp_ops s y _) fun _ => by simp
  | enqueue y o ho => exact hinsert (setOp_ops s y _) fun hxy => hmine ho hxy ▸ h
  | cancel y o ho =>
      refine hinsert (setOp_ops s y _) fun hxy => ?_
      obtain rfl := hmine ho hxy
      simp [hrunning, hcancellable]
  | run env lane y o o' _ hhead ho hrun hspec =>
      refine hinsert hspec.ops fun hxy => ?_
      rw [hspec.run.flags.2.1]
      exact hmine ho hxy ▸ h
  | returns y o ho =>
      have hops : (s.returns y o).ops = s.ops.insert y { o with returned := true } := by
        unfold returns
        dsimp only
        split <;> rfl
      exact hinsert hops fun hxy => hmine ho hxy ▸ h
  | wakeNothing waker _ _ hnot => exact absurd hheld hnot
  | woke env => exact absurd rfl (hl env)
  | drain | take | destroy | destroyNothing | wake | close | shutdown | shutdownAgain | closing
  | addDrain | addDestroy | alert | release | deinit | deinitNothing => exact hsame rfl

/-! ## Lost wakes -/

/-- Every cancellable metadata or checkpoint call that no wake has ended has one to come: its
    handler, or the shutdown, has not woken it in vain. -/
def Attentive (s : Host) : Prop :=
  ∀ x op, s.LongWait x op s.world.session.wakeGeneration → op.semantics = .cancellable →
    s.WakesToCome op

/-- No cancellable metadata or checkpoint call begins to wait when its handler, or the wake of
    the shutdown, is over. -/
def Prompt (s : Host) (l : Step) : Prop :=
  ∀ x op, s.entering l = some (x, op) → op.api.isLongWait = true →
    op.semantics = .cancellable → s.WakesToCome op

/-- What a step keeps while no wake is lost. -/
structure Watchful (s : Host) : Prop where
  sound : s.Sound
  calling : s.Calling
  permitted : ∀ x op, s.ops.lookup x = some op → op.Permitted
  attentive : s.Attentive

theorem step_attentive {s s' : Host} {l : Step} (h : s.Watchful) (hprompt : s.Prompt l)
    (hstep : s.step l = some s') : s'.Attentive := by
  intro x op' hwait hcancellable
  rcases step_longWait h.calling hstep hwait with ⟨op, hold, hmoved⟩ | ⟨op, hentering, rfl, _⟩
  · have hle := h.calling.generation _ _ hold.waits
    rcases step_wakeGeneration h.permitted hstep with ⟨heq, hl⟩ | ⟨_, _, _, _, heq⟩
    · have hsemantics : op.semantics = .cancellable := by
        rcases hmoved with rfl | htouch
        · exact hcancellable
        · exact htouch.kept.2.1 ▸ hcancellable
      have hrunning : op.running = true := by
        have hp := (h.sound.ops x op hold.found).phase
        rw [hold.phase h.calling] at hp
        exact hp.2.1
      have hheld := hold.held h.sound h.calling
      obtain ⟨hhandler, hwoken⟩ := h.attentive x op (heq ▸ hold) hsemantics
      exact ⟨step_handler hheld hstep hl hold.found hwait.found hrunning hsemantics hhandler,
        step_hasWoken h.sound.ordered hheld hstep hl hwoken⟩
    · -- the wait is older than the wake that has just come
      have hle : s'.world.session.wakeGeneration ≤ s.world.session.wakeGeneration := hle
      omega
  · obtain ⟨w, rfl, _⟩ := entering_step hentering hstep
    exact hprompt x op hentering hwait.long hcancellable

theorem step_watchful {s s' : Host} {l : Step} (h : s.Watchful) (hprompt : s.Prompt l)
    (hstep : s.step l = some s') : s'.Watchful where
  sound := step_sound h.sound hstep
  calling := step_calling h.calling hstep
  permitted := step_permitted h.permitted hstep
  attentive := step_attentive h hprompt hstep

/-- A call that begins to wait too late has nothing to wake it. -/
theorem not_attentive {s s' : Host} {l : Step} (hprompt : ¬ s.Prompt l)
    (hstep : s.step l = some s') : ¬ s'.Attentive := by
  intro hattentive
  refine hprompt fun x op hentering hlong hcancellable => ?_
  have hwait := entering_longWait hentering hstep hlong
  obtain ⟨w, rfl, _⟩ := entering_step hentering hstep
  have hcome := hattentive x _ hwait hcancellable
  exact hcome

/-- **When no wake is lost.** In all states of a run, every cancellable metadata or checkpoint
    call that waits for the current generation to pass still has its wakes to come, exactly
    when each such call that begins to wait does so before its handler has run and before
    `NativeSessionExecutor.shutdown` has woken the session. -/
theorem no_wake_lost_iff {ls : List Step} {s : Host} (hrun : Lts.exec step {} ls = some s) :
    Lts.EachState step Attentive {} ls ↔ Lts.EachStep step Prompt {} ls := by
  refine @Lts.eachState_iff_eachStep _ _ step Watchful Attentive Prompt (fun _ _ => True) _
    ⟨sound_init, calling_init, fun x op hop => by simp at hop, fun x op hwait => ?_⟩
    (fun s h => h.attentive) (fun s l s' h _ hprompt hstep => step_watchful h hprompt hstep)
    (fun s l s' _ _ hprompt hstep => not_attentive hprompt hstep) _ _ hrun
    fun _ _ _ _ _ => trivial
  exact absurd hwait.found (by simp)

/-- A magnet link is added; its metadata does not arrive. -/
def magnetRun : List Step :=
  [.submit 0 .native .mutation (.add sampleRequest), .enqueue 0] ++
    List.replicate 8 (.run magnetEnvironment .native) ++
    [.submit 1 .native .cancellable (.metadata "a" 30000), .enqueue 1]

/-- The task is cancelled while the call waits. -/
def promptCancelRun : List Step :=
  magnetRun ++ List.replicate 4 (.run magnetEnvironment .native) ++
    [.cancel 1, .wake (.handler 1), .woke magnetEnvironment, .run magnetEnvironment .native]

theorem promptCancelRun_attentive : Lts.EachState step Attentive {} promptCancelRun := by
  have hprompt : Lts.EachStep step (fun s l => ((s.entering l).all fun r =>
      decide (r.2.handler ≠ .done) && !s.shutdown.hasWoken) = true) {} promptCancelRun :=
    Lts.eachStep_of_check (by decide +kernel)
  refine (no_wake_lost_iff (exec_after (by decide +kernel))).mpr (hprompt.mono ?_)
  intro s l h x op hentering _ _
  rw [hentering, Option.all_some] at h
  simpa [WakesToCome] using h

/-- The task is cancelled between `begin()` and the sampling of the generation. -/
def earlyCancelRun : List Step :=
  magnetRun ++ [.run magnetEnvironment .native, .cancel 1, .wake (.handler 1),
    .woke magnetEnvironment] ++ List.replicate 3 (.run magnetEnvironment .native)

/-- The session is shut down while the operation is queued. -/
def lateStartRun : List Step :=
  magnetRun ++ [.shutdown, .advance, .wake .shutdown, .woke magnetEnvironment, .advance,
    .run magnetEnvironment .events, .wake .shutdown, .woke magnetEnvironment] ++
    List.replicate 4 (.run magnetEnvironment .native)

theorem longWait_of_any {s : Host} (x : OpId) (generation : Nat) {p : Op → Bool}
    (h : ((s.ops.lookup x).any fun op => op.api.isLongWait
      && decide (s.world.calls (x + 1) = some ⟨op.api, generation⟩) && p op) = true) :
    ∃ op, s.LongWait x op generation ∧ p op = true := by
  obtain ⟨op, hop, hflags⟩ := (Option.any_eq_true _ _).mp h
  simp only [Bool.and_eq_true, decide_eq_true_eq] at hflags
  obtain ⟨⟨hlong, hwaits⟩, hp⟩ := hflags
  exact ⟨op, ⟨hop, hlong, hwaits⟩, hp⟩

/-- A wake is lost in each of the two runs: nothing but its timeout ends the call. -/
theorem wakes_are_lost :
    ¬ (∀ ls s, Lts.exec step {} ls = some s → ∀ x op,
      s.LongWait x op s.world.session.wakeGeneration → op.semantics = .cancellable →
        op.handler ≠ .done) ∧
    ¬ (∀ ls s, Lts.exec step {} ls = some s → ∀ x op,
      s.LongWait x op s.world.session.wakeGeneration → op.semantics = .cancellable →
        s.shutdown.hasWoken = false) := by
  constructor
  · intro h
    obtain ⟨op, hwait, hflags⟩ := longWait_of_any (s := after earlyCancelRun) 1
      (after earlyCancelRun).world.session.wakeGeneration
      (p := fun op => decide (op.semantics = .cancellable ∧ op.handler = .done)) (by decide +kernel)
    obtain ⟨hcancellable, hdone⟩ := of_decide_eq_true hflags
    exact h _ _ (exec_after (by decide +kernel)) 1 op hwait hcancellable hdone
  · intro h
    obtain ⟨op, hwait, hcancellable⟩ := longWait_of_any (s := after lateStartRun) 1
      (after lateStartRun).world.session.wakeGeneration
      (p := fun op => decide (op.semantics = .cancellable)) (by decide +kernel)
    have hnot := h _ _ (exec_after (by decide +kernel)) 1 op hwait (of_decide_eq_true hcancellable)
    rw [show (after lateStartRun).shutdown = .woken by decide +kernel] at hnot
    cases hnot

end Host

end LibtorrentKit
