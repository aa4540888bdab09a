/-
  Wakes that end the wait of another operation.

  `ltkit_session_wake` moves one generation for the whole session, so a wake ends every wait,
  whoever it was issued for. `isolated_iff` says when that does no harm: no wake is called for
  while a metadata or checkpoint call waits whose task is not cancelled, and none is under way
  when such a call begins to wait.
-/
import LibtorrentKit.Swift.Waits

namespace LibtorrentKit

namespace Host

/-- Someone is about to call `native.wake()`, or holds the lock for it. -/
def wakePending (s : Host) : Bool :=
  s.lock.isSome || decide (0 < s.closers) || s.isWaking .shutdown
    || decide (∃ x ∈ s.ops.keys, s.isWaking (.handler x) || s.isWaking (.closing x))

/-- Whether a step calls for a wake: a cancellation whose handler wakes, or a call of
    `NativeEventReader.close()`. -/
def callsWake (s : Host) : Step → Bool
  | .cancel x => (s.ops.lookup x).any fun op => op.running && decide (op.semantics = .cancellable)
  | .run _ lane =>
      match (s.lanes lane).queue.head? with
      | some (.op x) => (s.ops.lookup x).any fun op => decide (op.lane = .events) &&
          match op.phase with
          | .answered response => decide (response.code = .sessionShutDown)
          | _ => false
      | _ => false
  | .returns x => (s.ops.lookup x).any fun op =>
      decide (op.lane = .events) && decide (op.outcome = some .sessionShutDown)
  | .close => true
  | .release => true
  | _ => false

/-- No wake has ended the wait of a metadata or checkpoint call whose task is not cancelled,
    unless the session is being shut down. -/
def Undisturbed (s : Host) : Prop :=
  s.shutdown = .idle → ∀ x op generation, s.LongWait x op generation → op.cancelled = false →
    generation = s.world.session.wakeGeneration

def Step.isWaking : Step → Bool
  | .wake _ => true
  | .woke _ => true
  | _ => false

/-- Nor will one that is under way. -/
def Isolated (s : Host) : Prop :=
  ∀ wakes t, (∀ l ∈ wakes, Step.isWaking l = true) → Lts.exec step s wakes = some t →
    t.Undisturbed

/-- Until the session is shut down, no step calls for a wake while a metadata or checkpoint call
    waits, unless it cancels the task of that call; and no such call begins to wait while a wake
    is pending. -/
def Considerate (s : Host) (l : Step) : Prop :=
  s.shutdown = .idle →
    (s.callsWake l = true → ∀ x op generation, s.LongWait x op generation →
      op.cancelled = false → l = .cancel x) ∧
    (∀ x op, s.entering l = some (x, op) → op.api.isLongWait = true → op.cancelled = false →
      s.wakePending = false)

/-! ## Pending wakes -/

theorem mem_keys_of_any {s : Host} {x : OpId} {p : Op → Bool}
    (h : (s.ops.lookup x).any p = true) : x ∈ s.ops.keys := by
  obtain ⟨op, hop, _⟩ := (Option.any_eq_true _ _).mp h
  exact Finmap.mem_keys.mpr (Finmap.mem_of_lookup_eq_some hop)

theorem wakePending_iff {s : Host} : s.wakePending = true ↔
    (∃ waker, s.lock = some waker) ∨ ∃ waker, s.isWaking waker = true := by
  simp only [wakePending, Bool.or_eq_true, decide_eq_true_eq, Option.isSome_iff_exists]
  constructor
  · rintro (((hlock | hclosers) | hshutdown) | ⟨x, _, hx | hx⟩)
    · exact Or.inl hlock
    · exact Or.inr ⟨.closer, decide_eq_true hclosers⟩
    · exact Or.inr ⟨.shutdown, hshutdown⟩
    · exact Or.inr ⟨.handler x, hx⟩
    · exact Or.inr ⟨.closing x, hx⟩
  · rintro (hlock | ⟨waker, hwaking⟩)
    · exact Or.inl (Or.inl (Or.inl hlock))
    · cases waker with
      | handler x => exact Or.inr ⟨x, mem_keys_of_any hwaking, Or.inl hwaking⟩
      | closer => exact Or.inl (Or.inl (Or.inr (of_decide_eq_true hwaking)))
      | closing x => exact Or.inr ⟨x, mem_keys_of_any hwaking, Or.inr hwaking⟩
      | shutdown => exact Or.inl (Or.inr hwaking)

theorem isWaking_handler_of {s : Host} {x : OpId} {op : Op} (hop : s.ops.lookup x = some op)
    (h : op.handler = .waking) : s.isWaking (.handler x) = true := by
  simp [isWaking, hop, h]

theorem isWaking_closing_of {s : Host} {x : OpId} {op : Op} {response : Response}
    (hop : s.ops.lookup x = some op) (h : op.phase = .closing response) :
    s.isWaking (.closing x) = true := by
  simp [isWaking, hop, h]

/-- What a step does that calls for a wake. -/
theorem callsWake_step {s s' : Host} {l : Step} (h : s.callsWake l = true)
    (hstep : s.step l = some s') : s'.world = s.world ∧ s'.shutdown = s.shutdown ∧
      s'.wakePending = true ∧ (s'.ops = s.ops ∨ ∃ y o o', s.ops.lookup y = some o ∧
        s'.ops = s.ops.insert y o' ∧ o'.api = o.api ∧
        (l = .cancel y ∨ o'.cancelled = o.cancelled)) := by
  have hcloser : ∀ {t : Host}, 0 < t.closers → t.wakePending = true := by
    intro t ht
    exact wakePending_iff.mpr (Or.inr ⟨.closer, decide_eq_true ht⟩)
  cases l with
  | cancel x =>
      obtain ⟨op, hop, hflags⟩ := (Option.any_eq_true _ _).mp h
      simp only [Bool.and_eq_true, decide_eq_true_eq] at hflags
      simp only [step, hop, Option.bind_some, Option.ite_none_left_eq_some] at hstep
      obtain rfl := Option.some.inj hstep.2
      refine ⟨rfl, rfl, wakePending_iff.mpr (Or.inr ⟨.handler x, ?_⟩),
        Or.inr ⟨x, op, _, hop, rfl, rfl, Or.inl rfl⟩⟩
      exact isWaking_handler_of (Finmap.lookup_insert _) (if_pos hflags)
  | run env lane =>
      simp only [callsWake] at h
      split at h
      · next x hhead =>
          obtain ⟨op, hop, hflags⟩ := (Option.any_eq_true _ _).mp h
          simp only [Bool.and_eq_true, decide_eq_true_eq] at hflags
          obtain ⟨hlane, hflags⟩ := hflags
          split at hflags
          · next response hphase =>
              simp only [step, run, hhead, hop, Option.bind_some, runOp, hphase, hlane,
                readEvent, if_pos (of_decide_eq_true hflags)] at hstep
              obtain rfl := Option.some.inj hstep
              refine ⟨rfl, rfl, wakePending_iff.mpr (Or.inr ⟨.closing x, ?_⟩),
                Or.inr ⟨x, op, _, hop, rfl, rfl, Or.inr rfl⟩⟩
              exact isWaking_closing_of (Finmap.lookup_insert _) rfl
          · cases hflags
      · cases h
  | returns x =>
      obtain ⟨op, hop, hflags⟩ := (Option.any_eq_true _ _).mp h
      simp only [Bool.and_eq_true, decide_eq_true_eq] at hflags
      simp only [step, hop, Option.bind_some, Option.ite_none_left_eq_some] at hstep
      obtain rfl := Option.some.inj hstep.2
      rw [returns, if_pos hflags]
      exact ⟨rfl, rfl, hcloser (Nat.succ_pos _),
        Or.inr ⟨x, op, _, hop, rfl, rfl, Or.inr rfl⟩⟩
  | close =>
      simp only [step, Option.ite_none_left_eq_some] at hstep
      obtain rfl := Option.some.inj hstep.2
      exact ⟨rfl, rfl, hcloser (Nat.succ_pos _), Or.inl rfl⟩
  | release =>
      simp only [step, Option.ite_none_left_eq_some] at hstep
      obtain rfl := Option.some.inj hstep.2
      exact ⟨rfl, rfl, hcloser (Nat.succ_pos _), Or.inl rfl⟩
  | _ => cases h

/-- What a return of `native.wake()` makes of the operation `x`. -/
def wokenOp (waker : Waker) (x : OpId) (op : Op) : Op :=
  match waker with
  | .handler y => if x = y ∧ op.handler = .waking then { op with handler := .done } else op
  | .closing y =>
      match op.phase with
      | .closing response => if x = y then op.yield (.native response none) else op
      | _ => op
  | _ => op

theorem woken_lookup (s : Host) (waker : Waker) (x : OpId) :
    (s.woken waker).ops.lookup x = (s.ops.lookup x).map (wokenOp waker x) := by
  have hsame : ∀ {f : Op → Op}, (∀ op, s.ops.lookup x = some op → f op = op) →
      s.ops.lookup x = (s.ops.lookup x).map f := by
    intro f hf
    cases hop : s.ops.lookup x with
    | none => rfl
    | some op => rw [Option.map_some, hf op hop]
  have hset : ∀ {y : OpId} {op op' : Op} {f : Op → Op}, s.ops.lookup y = some op →
      (x = y → f op = op') → (x ≠ y → ∀ op, f op = op) →
      (s.setOp y op').ops.lookup x = (s.ops.lookup x).map f := by
    intro y op op' f hop hself hother
    by_cases hxy : x = y
    · subst hxy
      rw [setOp_ops, Finmap.lookup_insert, hop, Option.map_some, hself rfl]
    · rw [setOp_ops, Finmap.lookup_insert_of_ne _ hxy]
      exact hsame fun op _ => hother hxy op
  cases waker with
  | handler y =>
      simp only [woken]
      split
      · next op hop =>
          split
          · next hwaking =>
              refine hset hop (fun hxy => if_pos ⟨hxy, hwaking⟩) fun hxy op => if_neg ?_
              exact fun hc => hxy hc.1
          · next hwaking =>
              refine hsame fun op' hop' => if_neg fun hc => hwaking ?_
              rw [hc.1, hop] at hop'
              exact Option.some.inj hop' ▸ hc.2
      · next hnone =>
          refine hsame fun op' hop' => if_neg fun hc => ?_
          rw [hc.1, hnone] at hop'
          cases hop'
  | closer => exact hsame fun _ _ => rfl
  | closing y =>
      simp only [woken]
      split
      · next op hop =>
          split
          · next response hphase =>
              refine hset hop (fun hxy => by simp [wokenOp, hphase, hxy]) fun hxy op => ?_
              simp only [wokenOp, if_neg hxy]
              split <;> rfl
          · next hphase =>
              refine hsame fun op' hop' => ?_
              simp only [wokenOp]
              split
              · next response hp =>
                  refine if_neg fun hxy => ?_
                  rw [hxy, hop] at hop'
                  exact hphase response (Option.some.inj hop' ▸ hp)
              · rfl
      · next hnone =>
          refine hsame fun op' hop' => ?_
          simp only [wokenOp]
          split
          · refine if_neg fun hxy => ?_
            rw [hxy, hnone] at hop'
            cases hop'
          · rfl
  | shutdown =>
      simp only [woken]
      split <;> exact hsame fun _ _ => rfl

theorem wokenOp_fields (waker : Waker) (x : OpId) (op : Op) :
    (wokenOp waker x op).cancelled = op.cancelled ∧ (wokenOp waker x op).api = op.api ∧
      ((wokenOp waker x op).handler = .waking → op.handler = .waking) ∧
      ∀ response, (wokenOp waker x op).phase = .closing response →
        op.phase = .closing response := by
  cases waker with
  | handler y =>
      simp only [wokenOp]
      split
      · exact ⟨rfl, rfl, by simp, fun _ h => h⟩
      · exact ⟨rfl, rfl, id, fun _ h => h⟩
  | closing y =>
      simp only [wokenOp]
      split
      · split
        · exact ⟨rfl, rfl, id, by simp [Op.yield]⟩
        · exact ⟨rfl, rfl, id, fun _ h => h⟩
      · exact ⟨rfl, rfl, id, fun _ h => h⟩
  | closer | shutdown => exact ⟨rfl, rfl, id, fun _ h => h⟩

/-- An operation that is to wake was to do so before the step, or the step calls for it. -/
theorem step_opWaking {s s' : Host} {l : Step} (hstep : s.step l = some s') {x : OpId} {op' : Op}
    (hop' : s'.ops.lookup x = some op')
    (h : op'.handler = .waking ∨ ∃ response, op'.phase = .closing response) :
    (∃ waker, s.isWaking waker = true) ∨ s.callsWake l = true := by
  have hbefore : ∀ {op : Op}, s.ops.lookup x = some op →
      op.handler = .waking ∨ (∃ response, op.phase = .closing response) →
      (∃ waker, s.isWaking waker = true) ∨ s.callsWake l = true := by
    rintro op hop (hw | ⟨response, hp⟩)
    · exact Or.inl ⟨_, isWaking_handler_of hop hw⟩
    · exact Or.inl ⟨_, isWaking_closing_of hop hp⟩
  have hsame : s'.ops = s.ops → (∃ waker, s.isWaking waker = true) ∨ s.callsWake l = true :=
    fun heq => hbefore (heq ▸ hop') h
  have hinsert : ∀ {y : OpId} {o : Op}, s'.ops = s.ops.insert y o →
      (x = y → op' = o → (∃ waker, s.isWaking waker = true) ∨ s.callsWake l = true) →
      (∃ waker, s.isWaking waker = true) ∨ s.callsWake l = true := by
    intro y o heq ho
    rw [heq] at hop'
    by_cases hxy : x = y
    · subst hxy
      rw [Finmap.lookup_insert] at hop'
      exact ho rfl (Option.some.inj hop').symm
    · rw [Finmap.lookup_insert_of_ne _ hxy] at hop'
      exact hbefore hop' h
  have hwoken : ∀ {t : Host} (waker : Waker), t.ops = s.ops → s' = t.woken waker →
      (∃ waker, s.isWaking waker = true) ∨ s.callsWake l = true := by
    rintro t waker ht rfl
    rw [woken_lookup, ht] at hop'
    obtain ⟨op, hop, rfl⟩ := Option.map_eq_some_iff.mp hop'
    obtain ⟨_, _, hhandler, hclosing⟩ := wokenOp_fields waker x op
    exact hbefore hop (h.imp hhandler fun ⟨response, hp⟩ => ⟨response, hclosing response hp⟩)
  cases step_end hstep with
  | submit y lane semantics api =>
      refine hinsert (setOp_ops s y _) ?_
      rintro _ rfl
      simp at h
  | enqueue y o ho =>
      refine hinsert (setOp_ops s y _) ?_
      rintro rfl rfl
      exact hbefore ho (h.imp_right (by simp))
  | cancel y o ho =>
      refine hinsert (setOp_ops s y _) ?_
      rintro rfl rfl
      rcases h with hw | hp
      · refine Or.inr ?_
        dsimp only at hw
        split at hw
        · next hflags => simp [callsWake, ho, hflags]
        · cases hw
      · exact hbefore ho (Or.inr hp)
  | run env lane y o o' _ hhead ho hrun hspec =>
      refine hinsert hspec.ops ?_
      rintro rfl rfl
      rcases h with hw | ⟨response, hp⟩
      · exact hbefore ho (Or.inl (hspec.run.flags.2.1 ▸ hw))
      · cases hspec.run with
        | close response' hphase hlane hcode =>
            exact Or.inr (by simp [callsWake, hhead, ho, hphase, hlane, hcode])
        | _ => cases hp
  | returns y o ho =>
      have hops : (s.returns y o).ops = s.ops.insert y { o with returned := true } := by
        unfold returns
        dsimp only
        split <;> rfl
      refine hinsert hops ?_
      rintro rfl rfl
      exact hbefore ho h
  | wakeNothing waker => exact hwoken waker rfl rfl
  | woke env waker w => exact @hwoken { s with world := w, lock := none } waker rfl rfl
  | drain | take | destroy | destroyNothing | wake | close | shutdown | shutdownAgain | closing
  | addDrain | addDestroy | alert | release | deinit | deinitNothing => exact hsame rfl

theorem step_closers {s s' : Host} {l : Step} (hstep : s.step l = some s') :
    s'.closers ≤ s.closers ∨ s.callsWake l = true := by
  have hwoken : ∀ {t : Host} (waker : Waker), t.closers = s.closers →
      (t.woken waker).closers ≤ s.closers := by
    intro t waker ht
    rw [← ht]
    cases waker with
    | closer => exact Nat.sub_le _ _
    | handler x =>
        simp only [woken]
        split
        · split <;> exact le_rfl
        · exact le_rfl
    | closing x =>
        simp only [woken]
        split
        · split <;> exact le_rfl
        · exact le_rfl
    | shutdown =>
        simp only [woken]
        split <;> exact le_rfl
  cases step_end hstep with
  | run env lane y o o' _ hhead ho hrun hspec => exact Or.inl hspec.closers.le
  | returns y o ho =>
      unfold returns
      dsimp only
      split
      · next hcloses => exact Or.inr (by simp [callsWake, ho, hcloses])
      · exact Or.inl le_rfl
  | wakeNothing waker => exact Or.inl (hwoken waker rfl)
  | woke env waker w => exact Or.inl (@hwoken { s with world := w, lock := none } waker rfl)
  | close => exact Or.inr rfl
  | release => exact Or.inr rfl
  | submit | enqueue | cancel | drain | take | destroy | destroyNothing | wake | shutdown
  | shutdownAgain | closing | addDrain | addDestroy | alert | deinit | deinitNothing =>
      exact Or.inl le_rfl

/-- A wake that is pending after a step was pending before, or the step calls for it. -/
theorem step_wakePending {s s' : Host} {l : Step} (hstep : s.step l = some s')
    (hidle : s'.shutdown = .idle) (h : s'.wakePending = true) :
    s.wakePending = true ∨ s.callsWake l = true := by
  have hbefore : ∀ {P : Prop}, (∃ waker, s.isWaking waker = true) ∨ P → s.wakePending = true ∨ P :=
    fun hw => hw.imp_left fun hw => wakePending_iff.mpr (Or.inr hw)
  rcases wakePending_iff.mp h with ⟨waker, hlock⟩ | ⟨waker, hwaking⟩
  · rcases step_lock hstep with heq | heq | ⟨waker', _, hwaking, _⟩
    · exact Or.inl (wakePending_iff.mpr (Or.inl ⟨waker, heq ▸ hlock⟩))
    · rw [heq] at hlock
      cases hlock
    · exact hbefore (Or.inl ⟨waker', hwaking⟩)
  · cases waker with
    | handler x =>
        obtain ⟨op', hop', hw⟩ := isWaking_handler hwaking
        exact hbefore (step_opWaking hstep hop' (Or.inl hw))
    | closing x =>
        obtain ⟨op', hop', hw⟩ := (Option.any_eq_true _ _).mp hwaking
        refine hbefore (step_opWaking hstep hop' (Or.inr ?_))
        split at hw
        · next response hp => exact ⟨response, hp⟩
        · cases hw
    | closer =>
        have hpos : 0 < s'.closers := of_decide_eq_true hwaking
        rcases step_closers hstep with hle | hcalls
        · exact hbefore (Or.inl ⟨.closer, decide_eq_true (hpos.trans_le hle)⟩)
        · exact Or.inr hcalls
    | shutdown =>
        simp only [isWaking, hidle] at hwaking
        cases hwaking

/-! ## A pending wake ends the wait -/

theorem woken_idle {s : Host} (waker : Waker) (h : s.shutdown = .idle) :
    (s.woken waker).shutdown = .idle := by
  rcases woken_shutdown s waker with heq | ⟨hs, _⟩ | ⟨hs, _⟩
  · exact heq.trans h
  · simp [hs] at h
  · simp [hs] at h

/-- The wake under way ends every wait. -/
theorem woke_disturbs {s : Host} (hcalling : s.Calling) (hidle : s.shutdown = .idle) {x : OpId}
    {op : Op} {generation : Nat} (hwait : s.LongWait x op generation)
    (hcancelled : op.cancelled = false) {waker : Waker} (hlock : s.lock = some waker) :
    ∃ env t, s.step (.woke env) = some t ∧ ¬ t.Undisturbed := by
  obtain ⟨env, w, answer, hcall⟩ := World.exists_wake hcalling.wakers
  refine ⟨env, { s with world := w, lock := none }.woken waker, ?_, fun h => ?_⟩
  · simp [step, hlock, hcall]
  · obtain ⟨hcancelled', hapi, _⟩ := wokenOp_fields waker x op
    have hcalls : w.calls (x + 1) = s.world.calls (x + 1) := by
      rw [(World.call_spec hcall).2, Function.update_of_ne (Nat.succ_ne_zero x)]
    have hwait' : ({ s with world := w, lock := none }.woken waker).LongWait x
        (wokenOp waker x op) generation := by
      refine ⟨?_, hapi ▸ hwait.long, ?_⟩
      · rw [woken_lookup, hwait.found, Option.map_some]
      · rw [woken_world, hapi]
        exact hcalls.trans hwait.waits
    have hnow := h (woken_idle waker hidle) x _ generation hwait' (hcancelled'.trans hcancelled)
    rw [woken_world] at hnow
    have hmoved := call_wakeGeneration hcall
    have hle : generation ≤ s.world.session.wakeGeneration :=
      hcalling.generation _ _ hwait.waits
    simp only [if_true] at hmoved
    dsimp only at hnow
    omega

theorem pending_disturbs {s : Host} (hs : s.Sound) (hcalling : s.Calling)
    (hidle : s.shutdown = .idle) {x : OpId} {op : Op} {generation : Nat}
    (hwait : s.LongWait x op generation) (hcancelled : op.cancelled = false)
    (hpending : s.wakePending = true) : ¬ s.Isolated := by
  intro h
  cases hlock : s.lock with
  | some waker =>
      obtain ⟨env, t, ht, hnot⟩ := woke_disturbs hcalling hidle hwait hcancelled hlock
      refine hnot (h [.woke env] t (by simp [Step.isWaking]) ?_)
      simp [Lts.exec_cons, ht]
  | none =>
      obtain ⟨waker, hwaking⟩ : ∃ waker, s.isWaking waker = true := by
        simpa [hlock] using wakePending_iff.mp hpending
      have hwake : s.step (.wake waker) = some { s with lock := some waker } := by
        simp [step, hlock, hwaking, hwait.held hs hcalling]
      have hwait' : { s with lock := some waker }.LongWait x op generation :=
        ⟨hwait.found, hwait.long, hwait.waits⟩
      obtain ⟨env, t, ht, hnot⟩ := woke_disturbs (step_calling hcalling hwake) hidle hwait'
        hcancelled rfl
      refine hnot (h [.wake waker, .woke env] t (by simp [Step.isWaking]) ?_)
      simp [Lts.exec_cons, hwake, ht]

/-! ## The result -/

/-- While a metadata or checkpoint call waits whose task is not cancelled, no wake is pending. -/
def NoStrayWake (s : Host) : Prop :=
  s.shutdown = .idle → ∀ x op generation, s.LongWait x op generation → op.cancelled = false →
    generation = s.world.session.wakeGeneration ∧ s.wakePending = false

/-- What a step keeps while the waits are isolated. -/
structure Peaceful (s : Host) : Prop where
  sound : s.Sound
  calling : s.Calling
  permitted : ∀ x op, s.ops.lookup x = some op → op.Permitted
  noStrayWake : s.NoStrayWake

theorem idle_of_step {s s' : Host} {l : Step} (ho : s.Ordered) (hstep : s.step l = some s')
    (h : s'.shutdown = .idle) : s.shutdown = .idle := by
  rcases step_shutdown ho hstep with heq | ⟨hrank, _⟩
  · exact heq ▸ h
  · rw [h] at hrank
    cases hrank

theorem touch_cancelled {op op' : Op} (h : op = op' ∨ op.Touch op')
    (hcancelled : op'.cancelled = false) : op.cancelled = false := by
  rcases h with rfl | htouch
  · exact hcancelled
  · cases htouch with
    | cancel => cases hcancelled
    | enqueue | woken | closed | returns => exact hcancelled

/-- A step that begins a wait calls for no wake. -/
theorem entering_callsWake {s : Host} {l : Step} {x : OpId} {op : Op}
    (h : s.entering l = some (x, op)) : s.callsWake l = false := by
  obtain ⟨env, lane, w, rfl, hhead, hop, hphase, _⟩ := entering_cases h
  simp [callsWake, hhead, hop, hphase]

theorem step_noStrayWake {s s' : Host} {l : Step} (h : s.Peaceful) (hconsiderate : s.Considerate l)
    (hstep : s.step l = some s') : s'.NoStrayWake := by
  intro hidle' x op' generation hwait hcancelled
  have hidle := idle_of_step h.sound.ordered hstep hidle'
  rcases step_longWait h.calling hstep hwait with ⟨op, hold, hmoved⟩ | ⟨op, hentering, rfl, hnow⟩
  · have hcancelled₀ := touch_cancelled (hmoved.imp_left Eq.symm) hcancelled
    obtain ⟨hnow, hpending⟩ := h.noStrayWake hidle x op generation hold hcancelled₀
    constructor
    · rcases step_wakeGeneration h.permitted hstep with ⟨heq, _⟩ | ⟨_, waker, _, hlock, _⟩
      · exact hnow.trans heq.symm
      · have hnot := wakePending_iff.mpr (Or.inl ⟨waker, hlock⟩)
        rw [hpending] at hnot
        cases hnot
    · rw [← Bool.not_eq_true]
      intro hpending'
      rcases step_wakePending hstep hidle' hpending' with hp | hcalls
      · rw [hpending] at hp
        cases hp
      · -- only the task of `x` itself may be cancelled, and it is not
        obtain rfl := (hconsiderate hidle).1 hcalls x op generation hold hcancelled₀
        cases step_end hstep with
        | cancel y o ho =>
            have hfound := hwait.found
            rw [cancel, setOp_ops, Finmap.lookup_insert] at hfound
            obtain rfl := Option.some.inj hfound
            cases hcancelled
  · refine ⟨hnow, ?_⟩
    rw [← Bool.not_eq_true]
    intro hpending'
    rcases step_wakePending hstep hidle' hpending' with hp | hcalls
    · rw [(hconsiderate hidle).2 x op hentering hwait.long hcancelled] at hp
      cases hp
    · rw [entering_callsWake hentering] at hcalls
      cases hcalls

theorem step_peaceful {s s' : Host} {l : Step} (h : s.Peaceful) (hconsiderate : s.Considerate l)
    (hstep : s.step l = some s') : s'.Peaceful where
  sound := step_sound h.sound hstep
  calling := step_calling h.calling hstep
  permitted := step_permitted h.permitted hstep
  noStrayWake := step_noStrayWake h hconsiderate hstep

theorem considerate_of_isWaking {s : Host} {l : Step} (h : Step.isWaking l = true) :
    s.Considerate l := by
  intro _
  cases l with
  | wake waker => exact ⟨fun hcalls => (by cases hcalls), fun _ _ hentering => (by cases hentering)⟩
  | woke env => exact ⟨fun hcalls => (by cases hcalls), fun _ _ hentering => (by cases hentering)⟩
  | _ => cases h

theorem Peaceful.isolated {s : Host} (h : s.Peaceful) : s.Isolated := by
  intro wakes t hwakes ht hidle x op generation hwait hcancelled
  have hwaking : Lts.EachStep step (fun _ l => Step.isWaking l = true) s wakes :=
    fun pre l u hp _ => hwakes l (hp.subset (by simp))
  have hpeaceful : t.Peaceful := Lts.exec_invariant h
    (fun _ _ _ hi hw hstep => step_peaceful hi (considerate_of_isWaking hw) hstep) wakes t hwaking ht
  exact (hpeaceful.noStrayWake hidle x op generation hwait hcancelled).1

theorem isWaking_waiting {s : Host} {w : World} {x : OpId} {op : Op} {waker : Waker}
    (hop : s.ops.lookup x = some op) (hphase : op.phase = .calling)
    (h : s.isWaking waker = true) :
    ({ s with world := w }.setOp x { op with phase := .waiting }).isWaking waker = true := by
  cases waker with
  | handler y =>
      by_cases hxy : y = x
      · subst hxy
        simpa [isWaking, hop] using h
      · simpa [isWaking, Finmap.lookup_insert_of_ne _ hxy] using h
  | closing y =>
      by_cases hxy : y = x
      · subst hxy
        simp [isWaking, hop, hphase] at h
      · simpa [isWaking, Finmap.lookup_insert_of_ne _ hxy] using h
  | closer | shutdown => exact h

/-- A wake that is called for while such a call waits, or is pending when it begins to, ends the
    wait. -/
theorem not_isolated {s s' : Host} {l : Step} (h : s.Peaceful) (hnot : ¬ s.Considerate l)
    (hstep : s.step l = some s') : ¬ s'.Isolated := by
  have hs' := step_sound h.sound hstep
  have hcalling' := step_calling h.calling hstep
  unfold Considerate at hnot
  rw [Classical.not_imp, not_and_or] at hnot
  obtain ⟨hidle, hcalls | hentering⟩ := hnot
  · simp only [Classical.not_imp, not_forall] at hcalls
    obtain ⟨hcalls, x, op, generation, hwait, hcancelled, hne⟩ := hcalls
    obtain ⟨hworld, hshutdown, hpending, hops⟩ := callsWake_step hcalls hstep
    obtain ⟨op', hop', hapi, hcancelled'⟩ : ∃ op', s'.ops.lookup x = some op' ∧
        op'.api = op.api ∧ op'.cancelled = op.cancelled := by
      rcases hops with heq | ⟨y, o, o', ho, heq, hapi, hc⟩
      · exact ⟨op, heq ▸ hwait.found, rfl, rfl⟩
      · by_cases hxy : x = y
        · subst hxy
          obtain rfl := Option.some.inj (hwait.found.symm.trans ho)
          exact ⟨o', by rw [heq, Finmap.lookup_insert], hapi, hc.resolve_left hne⟩
        · exact ⟨op, by rw [heq, Finmap.lookup_insert_of_ne _ hxy, hwait.found], rfl, rfl⟩
    exact pending_disturbs hs' hcalling' (hshutdown.trans hidle)
      ⟨hop', hapi ▸ hwait.long, by rw [hworld, hapi, hwait.waits]⟩ (hcancelled'.trans hcancelled)
      hpending
  · simp only [Classical.not_imp, not_forall, Bool.not_eq_false] at hentering
    obtain ⟨x, op, hentering, hlong, hcancelled, hpending⟩ := hentering
    have hwait := entering_longWait hentering hstep hlong
    obtain ⟨_, _, _, _, _, hop, hphase, _⟩ := entering_cases hentering
    obtain ⟨w, rfl, _⟩ := entering_step hentering hstep
    refine pending_disturbs hs' hcalling' hidle hwait hcancelled (wakePending_iff.mpr ?_)
    exact (wakePending_iff.mp hpending).imp_right fun ⟨waker, hwaking⟩ =>
      ⟨waker, isWaking_waiting hop hphase hwaking⟩

/-- **When the waits are isolated.** Until the session is shut down, no wake ends the wait of a
    metadata or checkpoint call whose task is not cancelled, in any state of a run and whatever
    wakes are under way in it, exactly when no step of the run calls for a wake while such a
    call waits, by cancelling the task of another operation or by closing the event reader, and
    no such call begins to wait while a wake is pending. -/
theorem isolated_iff {ls : List Step} {s : Host} (hrun : Lts.exec step {} ls = some s) :
    Lts.EachState step Isolated {} ls ↔ Lts.EachStep step Considerate {} ls := by
  refine @Lts.eachState_iff_eachStep _ _ step Peaceful Isolated Considerate (fun _ _ => True) _
    ⟨sound_init, calling_init, fun x op hop => by simp at hop, fun _ x op _ hwait => ?_⟩
    (fun s h => h.isolated)
    (fun s l s' h _ hconsiderate hstep => step_peaceful h hconsiderate hstep)
    (fun s l s' h _ hnot hstep => not_isolated h hnot hstep) _ _ hrun
    fun _ _ _ _ _ => trivial
  exact absurd hwait.found (by simp)

/-- The step cancels the task of `x`. -/
def Step.cancels (x : OpId) : Step → Bool
  | .cancel y => decide (y = x)
  | _ => false

def isConsiderate (s : Host) (l : Step) : Bool :=
  (!s.callsWake l || decide (∀ x ∈ s.ops.keys, (s.ops.lookup x).all fun op =>
    op.cancelled || (s.world.calls (x + 1)).isNone || l.cancels x)) &&
  (s.entering l).all fun r => r.2.cancelled || !s.wakePending

theorem considerate_of_check {s : Host} {l : Step} (h : s.isConsiderate l = true) :
    s.Considerate l := by
  simp only [isConsiderate, Bool.and_eq_true, Bool.or_eq_true, Bool.not_eq_true',
    decide_eq_true_eq] at h
  refine fun _ => ⟨fun hcalls x op generation hwait hcancelled => ?_,
    fun x op hentering _ hcancelled => ?_⟩
  · rw [hcalls] at h
    have hx := (h.1.resolve_left (by simp)) x
      (Finmap.mem_keys.mpr (Finmap.mem_of_lookup_eq_some hwait.found))
    rw [hwait.found, Option.all_some, hcancelled, hwait.waits] at hx
    cases l with
    | cancel y =>
        obtain rfl : y = x := by simpa [Step.cancels] using hx
        rfl
    | _ => simp [Step.cancels] at hx
  · have hentering' := h.2
    rw [hentering, Option.all_some, hcancelled] at hentering'
    simpa using hentering'

theorem promptCancelRun_isolated : Lts.EachState step Isolated {} promptCancelRun :=
  (isolated_iff (exec_after (by decide +kernel))).mpr
    ((Lts.eachStep_of_check (P := isConsiderate) (by decide +kernel)).mono
      fun _ _ h => considerate_of_check h)

/-- A metadata call waits, and so does the event reader, whose task is cancelled. -/
def eventCancelRun : List Step :=
  magnetRun ++ List.replicate 4 (.run magnetEnvironment .native) ++
    [.submit 2 .events .cancellable (.nextEvent 500), .enqueue 2] ++
    List.replicate 4 (.run magnetEnvironment .events) ++
    [.cancel 2, .wake (.handler 2), .woke magnetEnvironment]

/-- The task of a read is cancelled when its continuation has been resumed; the handler wakes
    the session when the next operation, a metadata call, waits. -/
def lateCancelRun : List Step :=
  [.submit 0 .native .mutation (.add sampleRequest), .enqueue 0] ++
    List.replicate 8 (.run magnetEnvironment .native) ++
    [.submit 1 .native .cancellable (.status "a"), .enqueue 1,
      .submit 2 .native .cancellable (.metadata "a" 30000), .enqueue 2] ++
    List.replicate 7 (.run magnetEnvironment .native) ++ [.cancel 1] ++
    List.replicate 5 (.run magnetEnvironment .native) ++
    [.wake (.handler 1), .woke magnetEnvironment]

theorem not_undisturbed {s : Host} (x : OpId) (generation : Nat)
    (h : ((s.ops.lookup x).any fun op => op.api.isLongWait
      && decide (s.world.calls (x + 1) = some ⟨op.api, generation⟩) && !op.cancelled) = true)
    (hidle : s.shutdown = .idle) (hne : generation ≠ s.world.session.wakeGeneration) :
    ¬ s.Undisturbed := by
  intro hundisturbed
  obtain ⟨op, hwait, hcancelled⟩ := longWait_of_any x generation h
  exact hne (hundisturbed hidle x op generation hwait (by simpa using hcancelled))

/-- In both runs a wake that was issued for another operation ends the metadata call; in the
    first, its caller learns that it was cancelled. -/
theorem waits_are_disturbed :
    (∃ s, Lts.exec step {} eventCancelRun = some s ∧ s.closed = false ∧ ¬ s.Undisturbed) ∧
    (∃ s, Lts.exec step {} lateCancelRun = some s ∧ s.closed = false ∧ ¬ s.Undisturbed) ∧
    ((after (eventCancelRun ++ List.replicate 6 (.run magnetEnvironment .native))).ops.lookup 1).any
      (fun op => !op.cancelled && decide (op.outcome = some (.result (.native { code := .timedOut }
        (some { code := .ok, output := .text "Metadata acquisition was cancelled." }))))) = true :=
  ⟨⟨_, exec_after (by decide +kernel), by decide +kernel,
      not_undisturbed 1 0 (by decide +kernel) (by decide +kernel) (by decide +kernel)⟩,
    ⟨_, exec_after (by decide +kernel), by decide +kernel,
      not_undisturbed 2 0 (by decide +kernel) (by decide +kernel) (by decide +kernel)⟩,
    by decide +kernel⟩

end Host

end LibtorrentKit
