/-
  What an operation comes to.

  `operation_outcomes`: once its task has passed the first check, an operation resumes its
  continuation once and runs its closure at most once, wherever a cancellation arrives. A
  mutation that has run returns what its closure yielded; a cancellable operation that was
  cancelled before the check after execution never does. `head_goes_on`: the block at the head
  of a lane gets to that point, as long as its native calls return and the lock is given back.

  `Outcome.verdict` is the link to `Swift.Arguments`, where the executor is what it does with the
  closure of one method: `mutation_ending` says that this is what the executor has done.
-/
import LibtorrentKit.Swift.Arguments
import LibtorrentKit.Swift.Lanes

namespace LibtorrentKit

/-- The check after execution is still to come. -/
def OpPhase.beforeCheck : OpPhase → Bool
  | .resuming _ => false
  | .resumed => false
  | .finished => false
  | _ => true

namespace Op

/-- Nothing but a cancellation can come of the operation any more, or the shutdown. -/
def Doomed (op : Op) : Prop :=
  op.semantics = .cancellable ∧ op.cancelled = true ∧
    ∀ o, op.phase = .resuming o ∨ op.outcome = some o →
      o = .cancellationError ∨ o = .sessionShutDown

theorem Ok.undecided {op : Op} (h : op.Ok) (hphase : op.phase.beforeCheck = true) (o : Outcome) :
    ¬ (op.phase = .resuming o ∨ op.outcome = some o) := by
  rintro (heq | heq)
  · rw [heq] at hphase
    cases hphase
  · rcases h.outcome_iff.mp (Option.isSome_of_eq_some heq) with hp | hp <;> rw [hp] at hphase <;>
      cases hphase

/-- Where the outcome of an operation comes from. -/
theorem Run.outcome_from {op op' : Op} (h : op.Run op') {o : Outcome}
    (ho : op'.phase = .resuming o ∨ op'.outcome = some o) :
    (op.phase = .resuming o ∨ op.outcome = some o) ∨ o = .cancellationError ∨
      o = .sessionShutDown ∨ ∃ result, op.phase = .executed result ∧ o = op.decide result := by
  rcases ho with hp | ho
  · cases h with
    | refuse => exact Or.inr (Or.inl (OpPhase.resuming.inj hp).symm)
    | shutDown => exact Or.inr (Or.inr (Or.inl (OpPhase.resuming.inj hp).symm))
    | decide result hphase =>
        exact Or.inr (Or.inr (Or.inr ⟨result, hphase, (OpPhase.resuming.inj hp).symm⟩))
    | _ => cases hp
  · cases h with
    | resume outcome hphase =>
        obtain rfl := Option.some.inj ho
        exact Or.inl (Or.inl hphase)
    | _ => exact Or.inl (Or.inr ho)

theorem Run.flags {op op' : Op} (h : op.Run op') :
    op'.cancelled = op.cancelled ∧ op'.handler = op.handler ∧ op'.returned = op.returned := by
  cases h <;> exact ⟨rfl, rfl, rfl⟩

/-- A cancellation that comes before the check stays the only outcome besides the shutdown. -/
theorem Step.doomed {op op' : Op} (h : op.Step op') (hd : op.Doomed) : op'.Doomed := by
  obtain ⟨hsemantics, hcancelled, hout⟩ := hd
  rcases h with h | h
  · refine ⟨h.kept.2.1.trans hsemantics, h.flags.1.trans hcancelled, fun o ho => ?_⟩
    rcases h.outcome_from ho with ho | ho | ho | ⟨result, _, rfl⟩
    · exact hout o ho
    · exact Or.inl ho
    · exact Or.inr ho
    · exact Or.inl (if_pos ⟨hsemantics, hcancelled⟩)
  · cases h with
    | enqueue hphase =>
        refine ⟨hsemantics, hcancelled, fun o ho => hout o (Or.inr ?_)⟩
        exact ho.resolve_left fun hp => by cases hp
    | closed response hphase =>
        refine ⟨hsemantics, hcancelled, fun o ho => hout o (Or.inr ?_)⟩
        exact ho.resolve_left fun hp => by cases hp
    | cancel hnot => exact absurd hcancelled (by simp [hnot])
    | woken => exact ⟨hsemantics, hcancelled, hout⟩
    | returns => exact ⟨hsemantics, hcancelled, hout⟩

/-- Once the continuation has been resumed, nothing about the outcome changes any more. -/
def Settled (op op' : Op) : Prop :=
  op.outcome.isSome = true → op'.outcome = op.outcome ∧ op'.resumes = op.resumes ∧
    op'.runs = op.runs ∧ op'.yielded = op.yielded

theorem Settled.refl (op : Op) : op.Settled op := fun _ => ⟨rfl, rfl, rfl, rfl⟩

theorem Settled.trans {a b c : Op} (h : a.Settled b) (h' : b.Settled c) : a.Settled c := by
  intro ha
  obtain ⟨h1, h2, h3, h4⟩ := h ha
  obtain ⟨h1', h2', h3', h4'⟩ := h' (h1 ▸ ha)
  exact ⟨h1'.trans h1, h2'.trans h2, h3'.trans h3, h4'.trans h4⟩

theorem Step.settled {op op' : Op} (hok : op.Ok) (h : op.Step op') : op.Settled op' := by
  intro hsome
  have hphase := hok.outcome_iff.mp hsome
  rcases h with h | h
  · cases h with
    | finish => exact ⟨rfl, rfl, rfl, rfl⟩
    | answer response hp => rcases hp with hp | hp <;> simp [hp] at hphase
    | yield response lastError hp => rcases hp with hp | hp <;> simp [hp] at hphase
    | refuse hp | begin hp | hold hp | shutDown hp | skip hp | start hp | wait hp
    | report response hp | close response hp | decide result hp | resume outcome hp =>
        simp [hp] at hphase
  · cases h with
    | closed response hp => simp [hp] at hphase
    | enqueue | cancel | woken | returns => exact ⟨rfl, rfl, rfl, rfl⟩

/-- A mutation has run exactly when a result comes of it. -/
theorem Fits.mutation {op : Op} {o : Outcome} (h : op.Fits o) (hm : op.semantics = .mutation) :
    ((∃ result, o = .result result) ↔ op.runs = 1) ∧ (o = .cancellationError → op.runs = 0) := by
  cases o with
  | cancellationError =>
      have hruns : op.runs = 0 := h.2.2 hm
      exact ⟨by simp [hruns], fun _ => hruns⟩
  | sessionShutDown =>
      have hruns : op.runs = 0 := h
      exact ⟨by simp [hruns], fun _ => hruns⟩
  | result result => exact ⟨⟨fun _ => h.1, fun _ => ⟨result, rfl⟩⟩, fun heq => by cases heq⟩

theorem Ok.cancellable {op : Op} (h : op.Ok) (hwaking : op.handler = .waking) :
    op.semantics = .cancellable := by
  cases hs : op.semantics with
  | cancellable => rfl
  | mutation => exact absurd hwaking (h.mutation hs)

end Op


namespace Host

/-! ## The handlers -/

/-- A handler that holds the lock belongs to a cancellable operation. -/
def HandlersCancellable (s : Host) : Prop :=
  ∀ x, s.lock = some (.handler x) → ∃ op, s.ops.lookup x = some op ∧ op.semantics = .cancellable

theorem isWaking_handler {s : Host} {x : OpId} (h : s.isWaking (.handler x) = true) :
    ∃ op, s.ops.lookup x = some op ∧ op.handler = .waking := by
  obtain ⟨op, hop, hwaking⟩ := (Option.any_eq_true _ _).mp h
  exact ⟨op, hop, by simpa using hwaking⟩

theorem step_handlersCancellable {s s' : Host} {l : Step}
    (hok : ∀ x op, s.ops.lookup x = some op → op.Ok) (h : s.HandlersCancellable)
    (hstep : s.step l = some s') : s'.HandlersCancellable := by
  intro x hlock
  obtain ⟨op, hop, hsemantics⟩ :
      ∃ op, s.ops.lookup x = some op ∧ op.semantics = .cancellable := by
    rcases step_lock hstep with heq | heq | ⟨waker, heq, hwaking, _⟩ <;> rw [heq] at hlock
    · exact h x hlock
    · cases hlock
    · obtain rfl := Option.some.inj hlock
      obtain ⟨op, hop, hw⟩ := isWaking_handler hwaking
      exact ⟨op, hop, (hok x op hop).cancellable hw⟩
  obtain ⟨op', hop', hmoved⟩ := (step_ops hstep).op hop
  refine ⟨op', hop', ?_⟩
  rcases hmoved with rfl | hspec | htouch
  · exact hsemantics
  · rw [hspec.run.kept.2.1, hsemantics]
  · rw [htouch.kept.2.1, hsemantics]

theorem run_handlersCancellable {ls : List Step} {s : Host}
    (hrun : Lts.exec step {} ls = some s) : s.HandlersCancellable := by
  have hinv := Lts.exec_invariant'
    (fun s : Host => (∀ x op, s.ops.lookup x = some op → op.Ok) ∧ s.HandlersCancellable)
    ⟨fun x op hop => by simp at hop, fun x hlock => by cases hlock⟩
    (fun s l s' h hstep => ⟨(step_ops hstep).keeps Op.ok_new Op.Step.ok h.1,
      step_handlersCancellable h.1 h.2 hstep⟩) ls s hrun
  exact hinv.2

/-! ## Progress -/

/-- The block at the head of its lane gets further, unless it is inside a native call or about
    to wake, or a wake holds the lock. -/
theorem head_goes_on {s : Host} {x : OpId} {op : Op} (hop : s.ops.lookup x = some op)
    (hhead : (s.lanes op.lane).queue.head? = some (.op x)) (hqueue : op.phase.inQueue = true)
    (hlock : s.lock = none) (hcall : op.phase.usesPointer = false)
    (hclosing : ∀ response, op.phase ≠ .closing response) (env : Environment) :
    ∃ s' op', s.step (.run env op.lane) = some s' ∧ s'.ops.lookup x = some op' ∧
      op.phase.rank < op'.phase.rank := by
  have hrun : s.step (.run env op.lane) = s.runOp env x op := by
    simp [step, run, hhead, hop]
  rw [hrun]
  unfold runOp
  cases hphase : op.phase with
  | queued =>
      dsimp only
      split
      · exact ⟨_, _, rfl, Finmap.lookup_insert _, by simp [OpPhase.rank]⟩
      · exact ⟨_, _, rfl, Finmap.lookup_insert _, by simp [OpPhase.rank]⟩
  | begun =>
      simp only [hlock, Option.isSome_none, Bool.false_eq_true, if_false]
      split
      · exact ⟨_, _, rfl, Finmap.lookup_insert _, by simp [OpPhase.rank]⟩
      · exact ⟨_, _, rfl, Finmap.lookup_insert _, by simp [OpPhase.rank]⟩
  | holding =>
      dsimp only
      split
      · exact ⟨_, _, rfl, Finmap.lookup_insert _, by simp [OpPhase.rank, Op.yield]⟩
      · exact ⟨_, _, rfl, Finmap.lookup_insert _, by simp [OpPhase.rank]⟩
  | answered response =>
      dsimp only
      split
      · split
        · exact ⟨_, _, rfl, Finmap.lookup_insert _, by simp [OpPhase.rank, Op.yield]⟩
        · exact ⟨_, _, rfl, Finmap.lookup_insert _, by simp [OpPhase.rank]⟩
      · unfold readEvent
        split
        · exact ⟨_, _, rfl, Finmap.lookup_insert _, by simp [OpPhase.rank]⟩
        · exact ⟨_, _, rfl, Finmap.lookup_insert _, by simp [OpPhase.rank, Op.yield]⟩
  | executed result => exact ⟨_, _, rfl, Finmap.lookup_insert _, by simp [OpPhase.rank]⟩
  | resuming outcome => exact ⟨_, _, rfl, Finmap.lookup_insert _, by simp [OpPhase.rank]⟩
  | resumed => exact ⟨_, _, rfl, Finmap.lookup_insert _, by simp [OpPhase.rank]⟩
  | closing response => exact absurd hphase (hclosing response)
  | submitted | finished =>
      rw [hphase] at hqueue
      cases hqueue
  | calling | waiting | reporting =>
      rw [hphase] at hcall
      cases hcall

/-! ## The outcome -/

/-- **What an operation comes to.** In every state of every run, for every operation: its
    continuation has been resumed at most once, exactly when it has an outcome, and once when
    its block is done; its closure has run at most once. A mutation returns a result exactly
    when its closure has run, a result is what the closure yielded, and its handler never calls
    `native.wake()`. However the run goes on, an outcome stays as it is, the closure of an
    operation that came to a `CancellationError` without having run never runs, and a
    cancellable operation that was cancelled before the check after execution comes to a
    `CancellationError`, unless the session was shut down and there was nothing to check. The
    block at the head of a lane gets there. -/
theorem operation_outcomes {ls : List Step} {s : Host} (hrun : Lts.exec step {} ls = some s)
    {x : OpId} {op : Op} (hop : s.ops.lookup x = some op) :
    op.resumes ≤ 1 ∧ (op.resumes = 1 ↔ op.outcome.isSome = true) ∧
    (.op x ∈ (s.lanes op.lane).done → op.resumes = 1) ∧
    op.runs ≤ 1 ∧
    (op.semantics = .mutation → ∀ o, op.outcome = some o →
      ((∃ result, o = .result result) ↔ op.runs = 1) ∧ (o = .cancellationError → op.runs = 0)) ∧
    (∀ result, op.outcome = some (.result result) → op.yielded = some result) ∧
    (op.semantics = .mutation →
      s.lock ≠ some (.handler x) ∧ s.step (.wake (.handler x)) = none) ∧
    (∀ more t op', Lts.exec step s more = some t → t.ops.lookup x = some op' →
      (op.outcome.isSome = true → op'.outcome = op.outcome ∧ op'.resumes = op.resumes ∧
        op'.runs = op.runs) ∧
      (op.semantics = .cancellable → op.cancelled = true → op.phase.beforeCheck = true →
        ∀ o, op'.outcome = some o →
          o = .cancellationError ∨ (o = .sessionShutDown ∧ op'.runs = 0))) ∧
    ((s.lanes op.lane).queue.head? = some (.op x) → s.lock = none →
      op.phase.usesPointer = false → (∀ response, op.phase ≠ .closing response) → ∀ env,
        ∃ s' op', s.step (.run env op.lane) = some s' ∧ s'.ops.lookup x = some op' ∧
          op.phase.rank < op'.phase.rank) := by
  have hok := run_ok hrun hop
  have hordered := run_ordered hrun
  have hresumes : op.resumes = 1 ↔ op.outcome.isSome = true := by
    rw [hok.resumes]
    split <;> simp [*]
  refine ⟨?_, hresumes, fun hdone => ?_, hok.runs_le, fun hm o ho => ?_, fun result ho => ?_,
    fun hm => ⟨fun hlock => ?_, ?_⟩, fun more t op' hmore hop' => ⟨fun hsome => ?_,
    fun hsemantics hcancelled hphase o ho => ?_⟩, fun hhead hlock hcall hclosing env => ?_⟩
  · rw [hok.resumes]
    split <;> decide
  · exact hresumes.mpr
      (hok.outcome_iff.mpr (Or.inr ((hordered.done_iff hop op.lane).mp hdone).2))
  · exact (hok.fits ho).mutation hm
  · exact (hok.fits ho).2
  · obtain ⟨op', hop', hsemantics⟩ := run_handlersCancellable hrun x hlock
    obtain rfl := Option.some.inj (hop.symm.trans hop')
    rw [hm] at hsemantics
    cases hsemantics
  · by_contra hne
    obtain ⟨s', hstep⟩ := Option.ne_none_iff_exists'.mp hne
    have hwaking : s.isWaking (.handler x) = true := by
      cases step_end hstep with
      | wake _ _ hwaking => exact hwaking
      | wakeNothing _ _ hwaking => exact hwaking
    obtain ⟨op', hop', hw⟩ := isWaking_handler hwaking
    obtain rfl := Option.some.inj (hop.symm.trans hop')
    exact hok.mutation hm hw
  · have hsettled := exec_op Op.Settled.refl Op.Settled.trans Op.Step.settled
      (fun y o ho => run_ok hrun ho) hmore hop
    obtain ⟨op'', hop'', hR⟩ := hsettled
    obtain rfl := Option.some.inj (hop'.symm.trans hop'')
    exact ⟨(hR hsome).1, (hR hsome).2.1, (hR hsome).2.2.1⟩
  · have hdoomed : op.Doomed :=
      ⟨hsemantics, hcancelled, fun o ho => absurd ho (hok.undecided hphase o)⟩
    obtain ⟨op'', hop'', hR⟩ := exec_op (R := fun op op' => op.Doomed → op'.Doomed)
      (fun _ h => h) (fun h h' hd => h' (h hd)) (fun _ h => h.doomed)
      (fun y o ho => run_ok hrun ho) hmore hop
    obtain rfl := Option.some.inj (hop'.symm.trans hop'')
    have hok' : op'.Ok := run_ok (by rw [Lts.exec_append, hrun]; exact hmore) hop'
    rcases (hR hdoomed).2.2 o (Or.inr ho) with rfl | rfl
    · exact Or.inl rfl
    · exact Or.inr ⟨rfl, hok'.fits ho⟩
  · exact head_goes_on hop hhead
      ((hordered.queued_iff hop op.lane).mp (SerialQueue.mem_queue_of_head hhead)).2 hlock hcall
      hclosing env

/-- A torrent is added, and the task of the call is cancelled while the closure runs. -/
def racedRun : List Step :=
  [.submit 0 .native .mutation (.add sampleRequest), .enqueue 0] ++
    List.replicate 3 (.run sampleEnvironment .native) ++ [.cancel 0] ++
    List.replicate 5 (.run sampleEnvironment .native)

/-- The caller learns that the torrent was added. -/
theorem racedRun_commits :
    ∃ op, (after racedRun).ops.lookup 0 = some op ∧ op.cancelled = true ∧ op.resumes = 1 ∧
      ∃ result, op.outcome = some (.result result) := by
  have hlookup : ((after racedRun).ops.lookup 0).any (fun op => op.cancelled
      && decide (op.semantics = .mutation) && decide (op.runs = 1) && op.outcome.isSome) = true := by
    decide +kernel
  obtain ⟨op, hop, hflags⟩ := (Option.any_eq_true _ _).mp hlookup
  simp only [Bool.and_eq_true, decide_eq_true_eq] at hflags
  obtain ⟨⟨⟨hcancelled, hsemantics⟩, hruns⟩, hsome⟩ := hflags
  obtain ⟨_, hresumes, _, _, hmutation, _⟩ :=
    operation_outcomes (exec_after (by decide +kernel)) hop
  obtain ⟨o, ho⟩ := Option.isSome_iff_exists.mp hsome
  obtain ⟨result, rfl⟩ := (hmutation hsemantics o ho).1.mpr hruns
  exact ⟨op, hop, hcancelled, hresumes.mpr hsome, result, ho⟩

end Host

/-! ## The verdict on a closure -/

/-- What the executor has done with the closure of an operation. -/
def Outcome.verdict : Outcome → Swift.Verdict
  | .cancellationError => .cancelled
  | .sessionShutDown => .shutDown
  | .result _ => .runs

open Swift in
/-- How a method goes on whose checks have passed, and whose operation is a mutation, as those of
    `add` and `selectFiles` are: its arguments reach the native layer exactly when its closure has
    run, once. It is cancelled, or throws, only when the closure has not run, and cancelled only
    when its task is. -/
theorem Host.mutation_ending (platform : Foundation) {ls : List Step} {s : Host}
    (hrun : Lts.exec step {} ls = some s) {x : OpId} {op : Op} (hop : s.ops.lookup x = some op)
    (hm : op.semantics = .mutation) {o : Outcome} (ho : op.outcome = some o) :
    (ending platform o.verdict (.ok (some op.api)) = .reached op.api ↔ op.runs = 1) ∧
    (ending platform o.verdict (.ok (some op.api)) = .cancelled →
      op.runs = 0 ∧ op.cancelled = true) ∧
    ∀ error, ending platform o.verdict (.ok (some op.api)) = .thrown error → op.runs = 0 := by
  have hfits := (run_ok hrun hop).fits ho
  obtain ⟨hresult, hcancelled⟩ := hfits.mutation hm
  rw [← hresult]
  cases o with
  | cancellationError => exact ⟨by simp [ending, perform, Outcome.verdict],
      fun _ => ⟨hcancelled rfl, hfits.1⟩, fun _ h => by cases h⟩
  | sessionShutDown => exact ⟨by simp [ending, perform, Outcome.verdict], fun h => (by cases h),
      fun _ _ => hfits⟩
  | result result => exact ⟨⟨fun _ => ⟨result, rfl⟩, fun _ => rfl⟩, fun h => (by cases h),
      fun _ h => (by cases h)⟩

end LibtorrentKit
