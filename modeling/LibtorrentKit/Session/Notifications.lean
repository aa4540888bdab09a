/-
  Calls that wait on the condition variable are notified.

  A call that waits sleeps until a critical section notifies, and sleeps again when its predicate
  is false then. `Sleepers` is the session with the calls that sleep. No call sleeps while its
  predicate is true, whatever the interleaving, and none sleeps on after `ltkit_session_wake` or
  `ltkit_session_destroy`: `no_call_oversleeps`.
-/
import LibtorrentKit.Session.Callers
import LibtorrentKit.Session.Hush

namespace LibtorrentKit

/-! ## Calls that sleep -/

/-- The session with its callers, and which of these sleep on the condition variable. -/
structure Sleepers where
  world : World := {}
  asleep : CallId → Bool := fun _ => false

namespace Sleepers

inductive Step where
  /-- A critical section. -/
  | run (l : LibtorrentKit.Step)
  /-- Thread `c` has been woken, for a reason or not, finds its predicate false and sleeps
      again. -/
  | again (env : Environment) (c : CallId)

/-- A call sleeps from when it begins to wait until a section notifies. -/
def step (t : Sleepers) : Step → Option Sleepers
  | .run l =>
      (t.world.step l).map fun w =>
        { world := w
          asleep := fun c => (w.calls c).isSome &&
            if (t.world.calls c).isSome then t.asleep c && !t.world.notifies l else true }
  | .again env c =>
      match t.world.calls c with
      | none => none
      | some wait =>
          if t.world.session.iteratedBy env && !t.world.session.wokenBy env wait then
            some { t with asleep := Function.update t.asleep c true }
          else none

/-- The calls that sleep wait for predicates that are false, and no call has sampled a wake
    generation that is still to come. -/
structure Sound (t : Sleepers) : Prop where
  sleeping : ∀ c, t.asleep c = true →
    ∃ wait, t.world.calls c = some wait ∧ t.world.session.Unwoken wait
  sampled : ∀ c wait, t.world.calls c = some wait →
    wait.generation ≤ t.world.session.wakeGeneration

variable {t u : Sleepers}

theorem step_world {l : Step} (hstep : t.step l = some u) :
    u.world = t.world ∨ ∃ k, t.world.step k = some u.world := by
  cases l with
  | run l =>
      obtain ⟨w, hw, rfl⟩ := Option.map_eq_some_iff.mp hstep
      exact Or.inr ⟨l, hw⟩
  | again env c =>
      simp only [step] at hstep
      split at hstep
      · cases hstep
      · simp only [Option.ite_none_right_eq_some] at hstep
        obtain rfl := Option.some.inj hstep.2
        exact Or.inl rfl

theorem step_sound {l : Step} (h : t.Sound) (hstep : t.step l = some u) : u.Sound := by
  cases l with
  | again env c =>
      simp only [step] at hstep
      split at hstep
      · cases hstep
      · next wait hwait =>
          simp only [Option.ite_none_right_eq_some, Bool.and_eq_true, Bool.not_eq_eq_eq_not,
            Bool.not_true] at hstep
          obtain ⟨⟨hiterated, hunwoken⟩, hu⟩ := hstep
          obtain rfl := Option.some.inj hu
          refine ⟨fun d hasleep => ?_, h.sampled⟩
          by_cases hd : d = c
          · subst hd
            exact ⟨wait, hwait, Session.unwoken_of_wokenBy (fun _ _ => hiterated) hunwoken⟩
          · have hbefore : Function.update t.asleep c true d = true := hasleep
            rw [Function.update_of_ne hd] at hbefore
            exact h.sleeping d hbefore
  | run l =>
      obtain ⟨w, hw, rfl⟩ := Option.map_eq_some_iff.mp hstep
      constructor
      · intro c hasleep
        simp only [Bool.and_eq_true] at hasleep
        obtain ⟨hwaits, hasleep⟩ := hasleep
        obtain ⟨wait, hwait⟩ := Option.isSome_iff_exists.mp hwaits
        refine ⟨wait, hwait, ?_⟩
        rcases World.step_waiting hw hwait with
          hbefore | ⟨env, api, rfl, hfree, hiterated, henter, rfl⟩
        · -- it slept before, and the section has not woken it
          simp only [hbefore, Option.isSome_some, if_true, Bool.and_eq_true,
            Bool.not_eq_eq_eq_not, Bool.not_true] at hasleep
          obtain ⟨wait', hwait', hunwoken⟩ := h.sleeping c hasleep.1
          obtain rfl := Option.some.inj (hbefore.symm.trans hwait')
          exact (World.step_hush hunwoken.running hasleep.2 hw).unwoken hunwoken
        · have hrecorded : (t.world.session.record (.called c api)).iteratedBy env = true :=
            hiterated
          exact Session.enter_unwoken hrecorded henter
      · intro c wait hwait
        have hgeneration := World.step_wakeGeneration hw
        rcases World.step_waiting hw hwait with hbefore | ⟨_, _, _, _, _, _, rfl⟩
        · have := h.sampled c wait hbefore
          show _ ≤ w.session.wakeGeneration
          omega
        · exact Nat.le_refl _

theorem run_sound {ls : List Step} (hrun : Lts.exec step {} ls = some t) : t.Sound :=
  Lts.exec_invariant' Sound ⟨fun c h => (by cases h), fun c wait h => (by cases h)⟩
    (fun _ _ _ => step_sound) ls t hrun

/-- The predicate of a call is true for good. -/
def Roused (t : Sleepers) (wait : Wait) : Prop :=
  t.world.session.shuttingDown = true ∨ wait.generation < t.world.session.wakeGeneration

theorem Roused.wokenBy {wait : Wait} (h : t.Roused wait) (env : Environment) :
    t.world.session.wokenBy env wait = true := by
  have hends : (t.world.session.shuttingDown ||
      decide (t.world.session.wakeGeneration ≠ wait.generation)) = true := by
    rcases h with h | h
    · rw [h, Bool.true_or]
    · rw [decide_eq_true (Nat.ne_of_gt h), Bool.or_true]
  unfold Session.wokenBy
  split
  · rw [Session.metadataWoken, hends, Bool.true_or]
  · rw [Session.checkpointWoken, hends, Bool.true_or]
  · rw [Session.nextEventWoken, Bool.or_assoc, hends, Bool.or_true]
  · rfl

theorem run_world {ls : List Step} (hrun : Lts.exec step {} ls = some t) :
    ∃ ks, Lts.exec World.step {} ks = some t.world :=
  Lts.exec_part Sleepers.world (fun _ _ _ => step_world) hrun

theorem step_roused {ls : List Step} {l : Step} {wait : Wait}
    (hrun : Lts.exec step {} ls = some t) (hstep : t.step l = some u) (h : t.Roused wait) :
    u.Roused wait := by
  rcases step_world hstep with heq | ⟨k, hk⟩
  · unfold Roused
    rw [heq]
    exact h
  · obtain ⟨ks, hks⟩ := run_world hrun
    rcases h with h | h
    · refine Or.inl ?_
      by_contra hne
      have := (World.step_grows (World.run_callers hks).2 hk).shuttingDown (by simpa using hne)
      rw [h] at this
      cases this
    · refine Or.inr ?_
      have hgeneration := World.step_wakeGeneration hk
      omega

theorem run_roused {ls : List Step} (hrun : Lts.exec step {} ls = some t) {wait : Wait}
    (h : t.Roused wait) (more : List Step) :
    ∀ {u : Sleepers}, Lts.exec step t more = some u → u.Roused wait := by
  induction more using List.reverseRecOn with
  | nil =>
      intro u hmore
      obtain rfl := Option.some.inj hmore
      exact h
  | append_singleton more l ih =>
      intro u hmore
      obtain ⟨v, hv, hu⟩ := Lts.exec_snoc_eq_some.mp hmore
      have hrunv : Lts.exec step {} (ls ++ more) = some v := by
        rw [Lts.exec_append, hrun]
        exact hv
      exact step_roused hrunv hu (ih hv)

/-- **No call oversleeps.** In every run, a call that sleeps on the condition variable waits
    for a predicate that is false: every section that makes a predicate true notifies. After
    `ltkit_session_wake` and `ltkit_session_destroy` no call that waited before sleeps again:
    its predicate is true until it returns. -/
theorem no_call_oversleeps {ls : List Step} (hrun : Lts.exec step {} ls = some t) :
    (∀ c, t.asleep c = true → ∃ wait, t.world.calls c = some wait ∧
      ∀ env, t.world.session.wokenBy env wait = false) ∧
    ∀ l, l = .destroy ∨ l.isWake = true → ∀ more u,
      Lts.exec step t (.run l :: more) = some u → ∀ c wait, t.world.calls c = some wait →
        u.world.calls c = some wait →
          u.asleep c = false ∧ ∀ env, u.world.session.wokenBy env wait = true := by
  refine ⟨fun c hasleep => ?_, fun l hl more u hmore c wait hbefore hafter => ?_⟩
  · obtain ⟨wait, hwait, hunwoken⟩ := (run_sound hrun).sleeping c hasleep
    exact ⟨wait, hwait, hunwoken.wokenBy⟩
  · obtain ⟨v, hv, hrest⟩ := Option.bind_eq_some_iff.mp ((Lts.exec_cons _ _ _).symm.trans hmore)
    have hroused : v.Roused wait := by
      obtain ⟨w, hw, rfl⟩ := Option.map_eq_some_iff.mp hv
      rcases hl with rfl | hwake
      · obtain rfl := Option.some.inj hw
        exact Or.inl rfl
      · refine Or.inr ?_
        have hgeneration := World.step_wakeGeneration hw
        rw [if_pos hwake] at hgeneration
        have hsampled := (run_sound hrun).sampled c wait hbefore
        show _ < w.session.wakeGeneration
        omega
    have hrunv : Lts.exec step {} (ls ++ [.run l]) = some v :=
      Lts.exec_snoc_eq_some.mpr ⟨t, hrun, hv⟩
    have hrunu : Lts.exec step {} (ls ++ .run l :: more) = some u := by
      rw [Lts.exec_append, hrun]
      exact hmore
    have hwoken := (run_roused hrunv hroused more hrest).wokenBy
    refine ⟨?_, hwoken⟩
    by_contra hasleep
    obtain ⟨wait', hwait', hunwoken⟩ :=
      (run_sound hrunu).sleeping c (Bool.not_eq_false _ |>.mp hasleep)
    obtain rfl := Option.some.inj (hafter.symm.trans hwait')
    exact Bool.false_ne_true ((hunwoken.wokenBy sampleEnvironment).symm.trans (hwoken _))

/-- The state after a run that can be followed. -/
def after (ls : List Step) : Sleepers := (Lts.exec step {} ls).getD {}

/-- A torrent finishes while caller 1 sleeps in its checkpoint. -/
def sleepingRun : List Step := World.waitingRun.map .run

/-- Caller 2 wakes the session. -/
def wakingRun : List Step := sleepingRun ++ [.run (.call sampleEnvironment 2 .wake)]

theorem sleepingRun_sleeps :
    (∀ env, (after sleepingRun).world.session.wokenBy env ⟨.checkpoint "a" true 1000, 0⟩ =
      false) ∧
    (after wakingRun).asleep 1 = false ∧
      ∀ env, (after wakingRun).world.session.wokenBy env ⟨.checkpoint "a" true 1000, 0⟩ = true := by
  have hsleeps : Lts.exec step {} sleepingRun = some (after sleepingRun) :=
    Lts.exec_getD (by decide +kernel)
  have hwakes : Lts.exec step {} wakingRun = some (after wakingRun) :=
    Lts.exec_getD (by decide +kernel)
  rw [wakingRun, Lts.exec_append, hsleeps] at hwakes
  have hwaits : (after sleepingRun).world.calls 1 = some ⟨.checkpoint "a" true 1000, 0⟩ := by
    decide +kernel
  obtain ⟨hasleep, hwoken⟩ := no_call_oversleeps hsleeps
  obtain ⟨wait, hwait, hfalse⟩ := hasleep 1 (by decide +kernel)
  obtain rfl := Option.some.inj (hwaits.symm.trans hwait)
  exact ⟨hfalse, hwoken _ (Or.inr rfl) [] _ hwakes 1 _ hwaits (by decide +kernel)⟩

end Sleepers

end LibtorrentKit
