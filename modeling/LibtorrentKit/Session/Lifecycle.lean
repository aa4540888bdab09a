/-
  The completion of a torrent as an abstract machine.

  `Stage` says how far the completion of a torrent is: none has begun, it is under way and so
  many replies of libtorrent have been accepted since, or it has been announced as completed or
  as failed. `Stage.step` reads the trace and has no step for what must not happen: an outcome
  of a completion that has not begun or has had one, a seventh reply, a `completed` event that
  `stoppedAfterCompletion` does not follow at once. The jobs refine the machine (`Job.In`), and
  a completion that is under way does not stand still: it waits for the reply to the one
  request that is open, or for a caller whose checkpoint is done, and either brings it nearer
  to its end (`World.Concluding`). `completion_concludes` is the result.
-/
import LibtorrentKit.Session.CompletionSafety
import LibtorrentKit.Session.Alive

namespace LibtorrentKit

open History Session

/-! ## The machine -/

/-- How far the completion of a torrent is. -/
inductive Stage where
  | running
  | concluding (replies : Nat)
  /-- The `completed` event is submitted, and `stoppedAfterCompletion` is to follow. -/
  | completed
  | stopped
  | failed
  deriving DecidableEq, Repr

namespace Stage

/-- A completion begins. -/
def begin : Stage → Option Stage
  | running => some (concluding 0)
  | _ => none

/-- A reply is accepted: of a caller's checkpoint, or of one that the completion waits for. -/
def reply : Stage → Option Stage
  | running => some running
  | concluding n => if n < 6 then some (concluding (n + 1)) else none
  | _ => none

/-- An event is submitted; `failure` tells the error of a failed completion from others. -/
def submit (failure : Bool) : Kind → Stage → Option Stage
  | .completed, concluding _ => some completed
  | .completed, _ => none
  | .stopped, completed => some stopped
  | .stopped, _ => none
  | _, completed => none
  | .error, concluding n => some (if failure then failed else concluding n)
  | .error, stage => if failure then none else some stage
  | _, stage => some stage

/-- One entry of the trace, for the torrent `id`. -/
def step (id : String) (stage : Stage) : Entry → Option Stage
  | .completing i _ _ => if i = id then stage.begin else some stage
  | .accepted i _ => if i = id then stage.reply else some stage
  | .mail (.submit i kind json) =>
      if i = id then
        stage.submit ([CompletionFailure.checkpoint, .payloads, .metadata].any fun failure =>
          decide (json = completionFailedJson id failure)) kind
      else some stage
  | _ => some stage

/-- The stage after some actions of the torrent. -/
def advance (id : String) (stage : Stage) (actions : List Action) : Option Stage :=
  Lts.exec (step id) stage (actions.filterMap (actionEntry id))

theorem exec_neutral {id : String} {stage : Stage} {es : List Entry}
    (h : ∀ e ∈ es, step id stage e = some stage) : Lts.exec (step id) stage es = some stage := by
  induction es with
  | nil => rfl
  | cons e es ih =>
      rw [Lts.exec_cons, h e List.mem_cons_self, Option.bind_some]
      exact ih fun x hx => h x (List.mem_cons_of_mem _ hx)

/-- What does not concern a torrent does not touch its completion. -/
theorem step_outside {id : String} {e : Entry} (h : ¬ e.Concerns id) (stage : Stage) :
    step id stage e = some stage := by
  cases e with
  | completing i | accepted i => exact if_neg h
  | mail op =>
      cases op with
      | submit i kind json => exact if_neg h
      | _ => rfl
  | _ => rfl

@[simp] theorem advance_nil (id : String) (stage : Stage) : stage.advance id [] = some stage := rfl

theorem advance_append (id : String) (stage : Stage) (xs ys : List Action) :
    stage.advance id (xs ++ ys) = (stage.advance id xs).bind fun s => s.advance id ys := by
  unfold advance
  rw [List.filterMap_append, Lts.exec_append]

@[simp] theorem advance_command (id : String) (stage : Stage) (c : Command)
    (actions : List Action) : stage.advance id (.command c :: actions) = stage.advance id actions :=
  rfl

@[simp] theorem advance_began (id : String) (stage : Stage) (h : Handle) (flush completion : Bool)
    (actions : List Action) :
    stage.advance id (.began h flush completion :: actions) = stage.advance id actions := rfl

theorem advance_accepted (id : String) (stage : Stage) (alert : Alert) (actions : List Action) :
    stage.advance id (.accepted alert :: actions) =
      stage.reply.bind fun s => s.advance id actions := by
  have hstep : step id stage (.accepted id alert) = stage.reply := if_pos rfl
  unfold advance
  rw [← hstep]
  exact Lts.exec_cons _ _ _

theorem advance_completing (id : String) (h : Handle) (desired : List Int)
    (actions : List Action) : running.advance id (.completing h desired :: actions) =
      (concluding 0).advance id actions := by
  have hstep : step id running (.completing id h desired) = some (concluding 0) := if_pos rfl
  exact (Lts.exec_cons _ _ _).trans (by rw [hstep]; rfl)

theorem advance_tuning {id : String} {actions : List Action} (h : Tuning actions)
    (stage : Stage) : stage.advance id actions = some stage := by
  refine exec_neutral fun e he => ?_
  obtain ⟨a, ha, hae⟩ := List.mem_filterMap.mp he
  obtain ⟨c, rfl, _⟩ := h a ha
  obtain rfl : Entry.command c = e := by simpa [actionEntry] using hae
  rfl

/-- The notes of a merge say nothing of the completion. -/
theorem exec_emits {id : String} {actions : List Action} {new : List Entry}
    (h : Emits id actions new) (stage : Stage) :
    Lts.exec (step id) stage new = stage.advance id actions := by
  induction actions generalizing new stage with
  | nil =>
      obtain rfl : new = [] := h
      rfl
  | cons a actions ih =>
      obtain ⟨notes, rest, rfl, hnotes, _, hrest⟩ := h
      have hquiet : Lts.exec (step id) stage notes = some stage := by
        refine exec_neutral fun e he => ?_
        obtain ⟨stored, json, rfl⟩ := hnotes e he
        rfl
      have hsplit : (a :: actions).filterMap (actionEntry id) =
          (actionEntry id a).toList ++ actions.filterMap (actionEntry id) := by
        cases hae : actionEntry id a <;> simp [hae]
      unfold advance
      rw [hsplit, List.append_assoc, Lts.exec_append, hquiet, Option.bind_some, Lts.exec_append,
        Lts.exec_append]
      exact congrArg _ (funext fun s => ih hrest s)

end Stage

/-! ## How far a job is -/

/-- The replies that the checkpoint in the slot still waits for. -/
def Phase.replies : Phase → Nat
  | .flushing => 2
  | .saving => 1
  | _ => 0

theorem Phase.replies_le (phase : Phase) : phase.replies ≤ 2 := by
  cases phase <;> decide

theorem Phase.replies_pos {c : DiskCheckpoint} (h : c.pending = true) : 0 < c.phase.replies := by
  rcases DiskCheckpoint.pending_iff.mp h with h | h <;> rw [h] <;> decide

/-- The replies that a completion may still wait for, with the recheck that it may make. -/
def Job.remaining (value : Job) : Nat :=
  (if value.completionWaiting then 4
    else if value.completionCheckpoint && !value.completionRechecked then 2 else 0)
    + value.checkpoint.barrier.phase.replies

/-- The job is as far as the machine is. -/
def Job.In (value : Job) : Stage → Prop
  | .running => ¬ World.completing value
  | .concluding n => World.completing value ∧ n + value.remaining ≤ 6
  | .completed => False
  | .stopped => value.Ended ∧ value.checkpoint = {}
  | .failed => value.Ended ∧ value.checkpoint = {}

/-- The machine takes the actions, and the job is where they lead it. -/
def Job.FollowsIn (id : String) (worked : Job × List Action) (stage : Stage) : Prop :=
  ∃ stage', stage.advance id worked.2 = some stage' ∧ worked.1.In stage'

section Steps

variable {id : String} {value : Job} {stage : Stage}

theorem Job.In.silent (h : value.In stage) {actions : List Action}
    (ha : stage.advance id actions = some stage) : Job.FollowsIn id (value, actions) stage :=
  ⟨stage, ha, h⟩

theorem Job.In.stays (h : value.In stage) : Job.FollowsIn id (value, []) stage :=
  h.silent (Stage.advance_nil id stage)

theorem Job.FollowsIn.after {worked : Job × List Action} {stage' : Stage} {pre : List Action}
    (h : Job.FollowsIn id worked stage') (hpre : stage.advance id pre = some stage') :
    Job.FollowsIn id (worked.1, pre ++ worked.2) stage := by
  obtain ⟨s, hs, hin⟩ := h
  refine ⟨s, ?_, hin⟩
  rw [Stage.advance_append, hpre]
  exact hs

theorem Job.FollowsIn.replied {worked : Job × List Action} {stage' : Stage} {alert : Alert}
    (h : Job.FollowsIn id worked stage') (hreply : stage.reply = some stage') :
    Job.FollowsIn id (worked.1, .accepted alert :: worked.2) stage := by
  obtain ⟨s, hs, hin⟩ := h
  refine ⟨s, ?_, hin⟩
  rw [Stage.advance_accepted, hreply]
  exact hs

/-- The stage looks at the flags of the completion and at the slot. -/
theorem Job.In.congr {value' : Job} (h : value.In stage)
    (hwaiting : value'.completionWaiting = value.completionWaiting)
    (hcompletion : value'.completionCheckpoint = value.completionCheckpoint)
    (hrechecked : value'.completionRechecked = value.completionRechecked)
    (hslot : value'.checkpoint = value.checkpoint)
    (hstopped : value.stopped = true → value'.stopped = true) : value'.In stage := by
  have hended : value.Ended ∧ value.checkpoint = {} → value'.Ended ∧ value'.checkpoint = {} :=
    fun ⟨he, hs⟩ => ⟨⟨hstopped he.stopped, hwaiting.trans he.waiting,
      hcompletion.trans he.completion⟩, hslot.trans hs⟩
  cases stage with
  | running | concluding n =>
      simpa only [In, World.completing, remaining, hwaiting, hcompletion, hrechecked, hslot] using h
  | completed => exact h
  | stopped => exact hended h
  | failed => exact hended h

theorem Job.Selects.inStage {value' : Job} (hs : value.Selects value') (h : value.In stage) :
    value'.In stage := by
  obtain ⟨d, f, p, i, r, l, rfl, _⟩ := hs
  exact h.congr rfl rfl rfl rfl id

theorem Job.In.stopping (h : value.In stage) : ({ value with stopped := true } : Job).In stage :=
  h.congr rfl rfl rfl rfl fun _ => rfl

/-- As long as the barrier stays, a busy slot may change. -/
theorem Job.In.slot (h : value.In stage) (slot : CheckpointState)
    (hbarrier : slot.barrier = value.checkpoint.barrier) (hbusy : value.checkpoint ≠ {}) :
    ({ value with checkpoint := slot } : Job).In stage := by
  cases stage with
  | running => exact h
  | concluding n =>
      have hremaining : ({ value with checkpoint := slot } : Job).remaining = value.remaining := by
        unfold remaining
        dsimp only
        rw [hbarrier]
      exact ⟨h.1, hremaining ▸ h.2⟩
  | completed => exact h
  | stopped | failed => exact absurd h.2 hbusy

theorem Job.started_remaining (value : Job) : value.completionStarted.remaining ≤ 4 := by
  have hbase : value.completionStarted.remaining =
      (if true && !value.completionRechecked then 2 else 0) + 2 := rfl
  rw [hbase]
  split <;> omega

/-- A completion that waits for a slot that is free is started. -/
theorem Job.In.started (h : value.In stage) :
    Job.FollowsIn id (startWaitingCompletion value) stage := by
  rcases startWaitingCompletion_cases value with ⟨heq, _⟩ | ⟨hw, _, _, heq⟩ <;> rw [heq]
  · exact h.stays
  · refine Job.In.silent ?_ (by simp)
    cases stage with
    | running => exact absurd (Or.inl hw) h
    | concluding n =>
        have hbefore : 4 ≤ value.remaining := by
          simp only [remaining, hw, if_true]
          omega
        have hstarted := value.started_remaining
        have hbound := h.2
        exact ⟨Or.inr rfl, by omega⟩
    | completed => exact h
    | stopped | failed => exact absurd (h.1.waiting.symm.trans hw) (by decide)

/-- The slot is freed. -/
theorem Job.In.freed (h : value.In stage) : ({ value with checkpoint := {} } : Job).In stage := by
  cases stage with
  | running => exact h
  | concluding n =>
      exact ⟨h.1, Nat.le_trans (Nat.add_le_add_left (Nat.add_le_add_left (Nat.zero_le _) _) n) h.2⟩
  | completed => exact h
  | stopped | failed => exact ⟨⟨h.1.stopped, h.1.waiting, h.1.completion⟩, rfl⟩

/-- A reply is accepted, and moves the barrier on. -/
theorem Job.In.replied (h : value.In stage) {phase : Phase} (data : Bytes)
    (hphase : phase.replies < value.checkpoint.barrier.phase.replies) :
    ∃ stage', stage.reply = some stage' ∧ (value.withReply phase data).In stage' := by
  have hbusy : value.checkpoint ≠ {} := by
    intro hidle
    rw [hidle] at hphase
    cases hphase
  cases stage with
  | running => exact ⟨.running, rfl, h⟩
  | concluding n =>
      have hless : (value.withReply phase data).remaining < value.remaining :=
        Nat.add_lt_add_left hphase _
      have hbound := h.2
      refine ⟨.concluding (n + 1), if_pos (by omega), h.1, ?_⟩
      omega
  | completed => exact absurd h id
  | stopped | failed => exact absurd h.2 hbusy

/-! ## What the code does to one job -/

/-- A call leaves a completion where it is, or starts it. -/
theorem Session.Work.followsIn {slot closing : Prop} {env : Environment}
    {worked : Job × List Action} (hw : Work slot closing env value worked) (hok : value.SlotOk)
    (h : value.In stage) : Job.FollowsIn id worked stage := by
  have hbusy : value.checkpoint.active = true → value.checkpoint ≠ {} := by
    intro hactive hidle
    rw [hidle] at hactive
    cases hactive
  cases hw with
  | select hselects htuning =>
      exact (hselects.inStage h).silent (Stage.advance_tuning htuning stage)
  | reject => exact h.stopping.silent (by simp)
  | begin hslot flush hstopped hactive hidle hcompletion =>
      rw [beginCheckpoint_eq]
      refine Job.In.silent ?_ (by simp)
      cases stage with
      | running => exact h
      | concluding n =>
          rcases h.1 with hw | hc
          · rcases hok.waiting hw with ha | hi
            · exact absurd (hactive.symm.trans ha) (by decide)
            · exact absurd hidle hi
          · exact absurd (hcompletion.symm.trans hc) (by decide)
      | completed => exact h
      | stopped | failed => exact absurd (hstopped.symm.trans h.1.stopped) (by decide)
  | abandon hslot hactive =>
      unfold abandonCheckpoint
      split
      · exact h.freed.started
      · exact Job.In.stays (h.slot _ rfl (hbusy hactive))
  | finish hslot hactive hdone => exact h.freed.started

/-- The checkpoint of a completion that is under way ends, with one outcome or in a recheck. -/
theorem CompletionEnd.followsIn {env : Environment} {success : Bool} {worked : Job × List Action}
    (hend : CompletionEnd env id value success worked) (hw : value.completionWaiting = false)
    (hc : value.completionCheckpoint = true) (h : value.In stage) :
    Job.FollowsIn id worked stage := by
  obtain ⟨n, rfl⟩ : ∃ n, stage = .concluding n := by
    cases stage with
    | running => exact absurd (Or.inr hc) h
    | concluding n => exact ⟨n, rfl⟩
    | completed => exact absurd h not_false
    | stopped | failed => exact absurd (h.1.completion.symm.trans hc) (by decide)
  cases hend with
  | recheck payloads metadata houtcome =>
      refine ⟨.concluding n, by simp, Or.inr hc, Nat.le_trans (Nat.add_le_add_left ?_ n) h.2⟩
      simp [Job.remaining, hw, hc, completionOutcome_recheck houtcome, Phase.replies]
  | completed payloads metadata houtcome =>
      refine ⟨.stopped, ?_, ⟨rfl, hw, rfl⟩, rfl⟩
      simp [Stage.advance, actionEntry, Stage.step, Stage.submit, Lts.exec_cons]
  | failed failure payloads metadata houtcome =>
      refine ⟨.failed, ?_, ⟨rfl, hw, rfl⟩, rfl⟩
      cases failure <;>
        simp [Stage.advance, actionEntry, Stage.step, Stage.submit, Lts.exec_cons]

/-- A checkpoint ends whose reply has been accepted. -/
theorem FinishEnd.followsIn {env : Environment} {success : Bool} {worked : Job × List Action}
    (hend : FinishEnd env id value success worked)
    (hexclusive : ¬ (value.completionWaiting = true ∧ value.completionCheckpoint = true))
    (h : value.In stage) : Job.FollowsIn id worked stage := by
  cases hend with
  | completion hcompletion hend =>
      refine hend.followsIn ?_ hcompletion h
      by_contra hw
      exact hexclusive ⟨by simpa using hw, hcompletion⟩
  | answered hcompletion hactive =>
      refine Job.In.stays (h.slot _ rfl fun hidle => ?_)
      rw [hidle] at hactive
      cases hactive
  | drained hcompletion hactive => exact h.freed.started

/-- The machine takes what an alert does. -/
theorem AlertEnd.followsIn {env : Environment} {alert : Alert} {worked : Job × List Action}
    (hend : AlertEnd env id value alert worked) (hok : value.SlotOk) (h : value.In stage) :
    Job.FollowsIn id worked stage := by
  have hsubmit : ∀ {kind : Kind} {json : String} {value' : Job}, value'.In stage →
      (kind = .metadata ∨ kind = .invalidSelection) →
      Job.FollowsIn id (value', [.enqueue kind json]) stage := by
    intro kind json value' h' hkind
    refine h'.silent ?_
    rcases hkind with rfl | rfl <;> cases stage <;>
      first
        | exact absurd h' not_false
        | simp [Stage.advance, actionEntry, Stage.step, Stage.submit, Lts.exec_cons]
  cases hend with
  | metadata hkind hselects htuning =>
      exact (hsubmit (hselects.inStage h) (Or.inl rfl)).after (Stage.advance_tuning htuning stage)
  | @rejected hkind value' actions hselects htuning =>
      have hsubmitted : Job.FollowsIn id ({ value' with stopped := true },
          [.command (.pause value'.handle), .command (.removeTorrent value'.handle false),
            .enqueue .invalidSelection (invalidSelectionJson id)]) stage :=
        hsubmit (hselects.inStage h).stopping (Or.inr rfl)
      exact hsubmitted.after (Stage.advance_tuning htuning stage)
  | completing hkind hcompletes hworked =>
      subst hworked
      obtain ⟨hc, hw, hs⟩ : value.completionCheckpoint = false ∧ value.completionWaiting = false ∧
          value.stopped = false := by
        simp only [completes, Bool.and_eq_true, Bool.not_eq_eq_eq_not, Bool.not_true] at hcompletes
        exact ⟨hcompletes.1.1.1.1.2, hcompletes.1.1.1.2, hcompletes.1.1.2⟩
      obtain rfl : stage = .running := by
        cases stage with
        | running => rfl
        | concluding n =>
            rcases h.1 with hw' | hc'
            · exact absurd (hw.symm.trans hw') (by decide)
            · exact absurd (hc.symm.trans hc') (by decide)
        | completed => exact absurd h not_false
        | stopped | failed => exact absurd (hs.symm.trans h.1.stopped) (by decide)
      have hbegun : ({ value with completionWaiting := true } : Job).In (.concluding 0) := by
        refine ⟨Or.inl rfl, ?_⟩
        have hreplies := value.checkpoint.barrier.phase.replies_le
        show 0 + (4 + value.checkpoint.barrier.phase.replies) ≤ 6
        omega
      obtain ⟨stage', hadvance, hin⟩ := @Job.In.started id _ _ hbegun
      refine ⟨stage', ?_, hin⟩
      rw [Stage.advance_command, Stage.advance_completing]
      exact hadvance
  | flushed request hkind hphase =>
      obtain ⟨stage', hreply, hin⟩ := h.replied value.checkpoint.data
        (show Phase.saving.replies < _ by rw [hphase]; decide)
      refine ⟨stage', ?_, hin⟩
      rw [Stage.advance_accepted, hreply]
      rfl
  | @saved request data hkind hphase worked hend =>
      obtain ⟨stage', hreply, hin⟩ := h.replied data
        (show Phase.succeeded.replies < _ by rw [hphase]; decide)
      exact (hend.followsIn hok.exclusive hin).replied hreply
  | @saveFailed request hkind hphase worked hend =>
      obtain ⟨stage', hreply, hin⟩ := h.replied value.checkpoint.data
        (show Phase.failed.replies < _ from Phase.replies_pos hphase)
      exact (hend.followsIn hok.exclusive hin).replied hreply
  | errorNoted hkind hphase =>
      refine Job.In.stays (h.slot _ rfl fun hidle => ?_)
      rw [hidle] at hphase
      cases hphase
  | errorReported hkind hphase =>
      refine h.silent ?_
      cases stage <;> first
        | exact absurd h not_false
        | simp [Stage.advance, actionEntry, Stage.step, Stage.submit, Lts.exec_cons,
            recoverable_ne_completionFailed]
  | status hkind json => exact h.silent rfl
  | ignored herror hflushed hsaved hfailed => exact h.silent rfl

end Steps

/-! ## The runs -/

/-- The machine reads the life of the torrent, and the job is where that leads. -/
def CourseInv (log : List Entry) (id : String) (o : Option Job) : Prop :=
  ∃ stage, Lts.exec (Stage.step id) .running (life id log) = some stage ∧
    ∀ value, o = some value → value.In stage

/-- One job moves on, and the machine with it. -/
theorem CourseInv.follow {log new : List Entry} {id : String} {value : Job}
    {worked : Job × List Action} (h : CourseInv log id (some value))
    (hnew : ∀ stage, Lts.exec (Stage.step id) stage new = stage.advance id worked.2)
    (hbegin : ∀ e ∈ new, e ≠ .mail (.begin id))
    (hfollows : ∀ stage, value.In stage → Job.FollowsIn id worked stage) :
    CourseInv (log ++ new) id (some worked.1) := by
  obtain ⟨stage, hstage, hin⟩ := h
  obtain ⟨stage', hadvance, hin'⟩ := hfollows stage (hin value rfl)
  refine ⟨stage', ?_, fun _ hv => Option.some.inj hv ▸ hin'⟩
  rw [life_append hbegin, Lts.exec_append, hstage, Option.bind_some, hnew]
  exact hadvance

theorem courseInv_invariant : JobInvariant CourseInv where
  init := fun id => ⟨.running, rfl, by simp⟩
  frame := by
    rintro log new id o ⟨stage, hstage, hin⟩ hnew
    refine ⟨stage, ?_, hin⟩
    rw [life_append fun e he hb => hnew e he (hb ▸ rfl), Lts.exec_append, hstage,
      Option.bind_some]
    exact Stage.exec_neutral fun e he => Stage.step_outside (hnew e he) stage
  work := by
    intro slot closing env log new id value worked hok hwork h hemits
    exact h.follow (fun stage => Stage.exec_emits hemits stage) (emits_not_begin hemits id)
      fun stage hin => hwork.followsIn hok hin
  alert := by
    intro env log new id value a worked hok _ hend h hemits
    refine h.follow (fun stage => ?_) (fun e he => ?_) fun stage hin => hend.followsIn hok hin
    · exact (Lts.exec_cons _ _ _).trans (Stage.exec_emits hemits stage)
    · rcases List.mem_cons.mp he with rfl | he
      · exact fun h => by cases h
      · exact emits_not_begin hemits id e he
  insert := by
    intro env log rest r params desired handle _ hrest
    refine ⟨.running, ?_, fun _ hv => Option.some.inj hv ▸ ?_⟩
    · have hsplit : log ++ .command (.addTorrent params handle) ::
          .mail (.begin r.identifier) :: rest = ((log ++ [.command (.addTorrent params handle)]) ++
            [.mail (.begin r.identifier)]) ++ rest := by simp
      rw [hsplit, life_append fun e he => by rw [hrest e he]; simp]
      have hnew : life r.identifier ((log ++ [.command (.addTorrent params handle)]) ++
          [.mail (.begin r.identifier)]) = [] := by simp [life, since]
      rw [hnew, List.nil_append]
      refine Stage.exec_neutral fun e he => ?_
      rw [hrest e he]
      simp [Stage.step, Stage.submit]
    · simp [Job.In, World.completing, newJob]
  remove := fun _ ⟨stage, hstage, _⟩ => ⟨stage, hstage, by simp⟩

/-! ## What a completion waits for -/

/-- The phase waits for an alert of this kind. -/
def Phase.awaits : Phase → AlertKind → Bool
  | .flushing, .cacheFlushed _ => true
  | .saving, .saveResumeData _ _ => true
  | .saving, .saveResumeDataFailed _ => true
  | _, _ => false

theorem Phase.awaits_cases {phase : Phase} {kind : AlertKind} (h : phase.awaits kind = true) :
    (phase = .flushing ∧ ∃ r, kind = .cacheFlushed r) ∨
      (phase = .saving ∧ ((∃ r data, kind = .saveResumeData r data) ∨
        ∃ r, kind = .saveResumeDataFailed r)) := by
  cases phase <;> cases kind <;> simp [awaits] at h ⊢

/-- How far a completion that is under way is from its end. -/
def Job.distance (value : Job) : Nat := value.remaining + value.completionWaiting.toNat

theorem Job.started_distance {value : Job} (hw : value.completionWaiting = true) :
    (startWaitingCompletion { value with checkpoint := {} }).1.distance < value.distance := by
  have hbefore : 5 ≤ value.distance := by
    simp only [distance, remaining, hw, if_true, Bool.toNat_true]
    omega
  have hstarted : ({ value with checkpoint := {} } : Job).completionStarted.distance ≤ 4 :=
    Job.started_remaining { value with checkpoint := {} }
  rcases startWaitingCompletion_cases { value with checkpoint := {} } with
    ⟨_, hno⟩ | ⟨_, _, _, heq⟩
  · rcases hno hw with ha | hi
    · cases ha
    · exact absurd rfl hi
  · rw [heq]
    exact hstarted.trans_lt hbefore

/-- The end of a checkpoint brings a completion no further away. -/
theorem FinishEnd.distance {env : Environment} {id : String} {value : Job} {success : Bool}
    {worked : Job × List Action} (hend : FinishEnd env id value success worked)
    (hcompleting : World.completing value)
    (hexclusive : ¬ (value.completionWaiting = true ∧ value.completionCheckpoint = true)) :
    worked.1.distance ≤ value.distance := by
  cases hend with
  | completion hcompletion hend =>
      have hw : value.completionWaiting = false := by
        by_contra hw
        exact hexclusive ⟨by simpa using hw, hcompletion⟩
      cases hend with
      | recheck payloads metadata houtcome =>
          simp [Job.distance, Job.remaining, hw, hcompletion, completionOutcome_recheck houtcome,
            Phase.replies]
      | completed payloads metadata houtcome =>
          simp [Job.distance, Job.remaining, hw, Phase.replies]
      | failed failure payloads metadata houtcome =>
          simp [Job.distance, Job.remaining, hw, Phase.replies]
  | answered hcompletion hactive => exact Nat.le_refl _
  | drained hcompletion hactive =>
      have hw := hcompleting.resolve_right (by simp [hcompletion])
      exact Nat.le_of_lt (Job.started_distance hw)

/-- A reply that is waited for brings a completion nearer to its end. -/
theorem AlertEnd.distance {env : Environment} {id : String} {value : Job} {alert : Alert}
    {worked : Job × List Action} (hend : AlertEnd env id value alert worked)
    (hcompleting : World.completing value)
    (hexclusive : ¬ (value.completionWaiting = true ∧ value.completionCheckpoint = true))
    (hawaits : value.checkpoint.barrier.phase.awaits alert.kind = true) :
    worked.1.distance < value.distance := by
  have hreply : ∀ {phase : Phase} {data : Bytes},
      phase.replies < value.checkpoint.barrier.phase.replies →
      (value.withReply phase data).distance < value.distance := fun h =>
    Nat.add_lt_add_right (Nat.add_lt_add_left h _) _
  cases hend with
  | flushed request hkind hphase => exact hreply (by rw [hphase]; decide)
  | saved request data hkind hphase hend =>
      exact (hend.distance hcompleting hexclusive).trans_lt (hreply (by rw [hphase]; decide))
  | saveFailed request hkind hphase hend =>
      exact (hend.distance hcompleting hexclusive).trans_lt (hreply (Phase.replies_pos hphase))
  | ignored herror hflushed hsaved hfailed =>
      rcases Phase.awaits_cases hawaits with ⟨hp, r, hk⟩ | ⟨hp, ⟨r, data, hk⟩ | ⟨r, hk⟩⟩
      · exact absurd hp (hflushed r hk)
      · exact absurd hp (hsaved r data hk)
      · have hnot := hfailed r hk
        simp [DiskCheckpoint.pending, hp] at hnot
  | metadata hkind | rejected hkind | completing hkind | status hkind | errorNoted hkind
  | errorReported hkind =>
      rcases Phase.awaits_cases hawaits with ⟨_, r, hk⟩ | ⟨_, ⟨r, data, hk⟩ | ⟨r, hk⟩⟩ <;>
        rw [hk] at hkind <;> cases hkind

/-- A caller whose checkpoint is done frees the slot when it returns. -/
theorem Session.resumeCheckpoint_freed {s : Session} {env : Environment} {id : String} {g : Nat}
    {value : Job} {res : Session × Response} (hvalue : s.jobs.lookup id = some value)
    (hdone : value.checkpoint.done = true) (h : s.resumeCheckpoint env id g = some res) :
    res.1.jobs.lookup id = some (startWaitingCompletion { value with checkpoint := {} }).1 := by
  have habandon : abandonCheckpoint value =
      startWaitingCompletion { value with checkpoint := {} } := if_pos hdone
  have hfreed : ∀ {t : Session},
      s.update env id (startWaitingCompletion { value with checkpoint := {} }) = some t →
      t.jobs.lookup id = some (startWaitingCompletion { value with checkpoint := {} }).1 := by
    intro t ht
    obtain ⟨new, hu⟩ := update_spec ht
    rw [hu.jobs, Finmap.lookup_insert]
  unfold resumeCheckpoint at h
  simp only [hvalue, habandon] at h
  split at h <;> obtain ⟨t, ht, rfl⟩ := Option.map_eq_some_iff.mp h <;> have hjobs := hfreed ht
  · exact hjobs
  · split
    · exact hjobs
    · rw [World.reply_jobs]
      exact hjobs

namespace World

variable {w : World} {id : String} {value : Job}

/-- The completion of the job is under way, and does not stand still. -/
structure Concluding (w : World) (id : String) (value : Job) : Prop where
  /-- It waits for a reply, or for the return of a caller whose checkpoint is done. -/
  waits : value.checkpoint.barrier.pending = true ∨
    value.checkpoint.done = true ∧ ∃ c, w.InCheckpoint c id
  /-- The reply is to the one request that is open on its handle. -/
  request : Fair w.session → value.checkpoint.barrier.pending = true →
    ∃ t, ∀ u, Open w.session.trace value.handle u ↔ u = t
  replied : ∀ env alert, w.session.shuttingDown = false → w.session.iteratedBy env = true →
    w.session.routed env alert = some (id, value) →
    value.checkpoint.barrier.phase.awaits alert.kind = true →
    ∃ w' value', w.step (.alert env alert) = some w' ∧
      w'.session.jobs.lookup id = some value' ∧ value'.distance < value.distance
  returned : ∀ env c, w.session.iteratedBy env = true → w.InCheckpoint c id →
    value.checkpoint.done = true → ∃ w' value', w.step (.resume env c) = some w' ∧
      w'.session.jobs.lookup id = some value' ∧ value'.distance < value.distance

theorem replied_nearer {ls : List Step} {env : Environment} {alert : Alert}
    (hrun : Lts.exec step {} ls = some w) (hcompleting : completing value) (hok : value.SlotOk)
    (hrunning : w.session.shuttingDown = false) (hiterated : w.session.iteratedBy env = true)
    (hrouted : w.session.routed env alert = some (id, value))
    (hawaits : value.checkpoint.barrier.phase.awaits alert.kind = true) :
    ∃ w' value', w.step (.alert env alert) = some w' ∧
      w'.session.jobs.lookup id = some value' ∧ value'.distance < value.distance := by
  obtain ⟨w', hstep⟩ := Option.isSome_iff_exists.mp
    (step_defined (l := .alert env alert) hrun ⟨hrunning, hiterated⟩)
  have hstep' := hstep
  simp only [step, hrunning, hiterated, Bool.not_true, Bool.or_self, Bool.false_eq_true, if_false,
    Option.map_eq_some_iff] at hstep'
  obtain ⟨s, hs, rfl⟩ := hstep'
  unfold handleAlert at hs
  rw [hrouted] at hs
  obtain ⟨new, hu⟩ := update_spec hs
  refine ⟨_, _, hstep, ?_, (onAlert_end env id value alert).distance hcompleting hok.exclusive
    hawaits⟩
  show s.jobs.lookup id = _
  rw [hu.jobs, Finmap.lookup_insert]

theorem returned_nearer {ls : List Step} {env : Environment} {c : CallId}
    (hrun : Lts.exec step {} ls = some w) (hvalue : w.session.jobs.lookup id = some value)
    (hw : value.completionWaiting = true) (hiterated : w.session.iteratedBy env = true)
    (hcaller : w.InCheckpoint c id) (hdone : value.checkpoint.done = true) :
    ∃ w' value', w.step (.resume env c) = some w' ∧
      w'.session.jobs.lookup id = some value' ∧ value'.distance < value.distance := by
  obtain ⟨wait, hwait, flush, timeoutMs, hapi⟩ := hcaller
  obtain ⟨w', hstep⟩ := Option.isSome_iff_exists.mp
    (step_defined (l := .resume env c) hrun ⟨by rw [hwait]; rfl, hiterated⟩)
  obtain ⟨wait', res, hwait', hres, rfl⟩ := step_resume hstep
  obtain rfl := Option.some.inj (hwait.symm.trans hwait')
  rw [hapi] at hres
  exact ⟨_, _, hstep, resumeCheckpoint_freed hvalue hdone hres, Job.started_distance hw⟩

/-- A completion that is under way does not stand still. -/
theorem concluding_of_completing {ls : List Step} (hrun : Lts.exec step {} ls = some w)
    (hvalue : w.session.jobs.lookup id = some value) (hcompleting : completing value) :
    w.Concluding id value := by
  obtain ⟨hslots, hcallers⟩ := run_callers hrun
  have hok := hslots id value hvalue
  have hwaiting : value.checkpoint.done = true → value.completionWaiting = true := fun hdone =>
    hcompleting.resolve_right fun hc => hok.owner ⟨(hok.done hdone).1, hc⟩
  constructor
  · cases hpending : value.checkpoint.barrier.pending with
    | true => exact Or.inl rfl
    | false =>
        have hw : value.completionWaiting = true := hcompleting.resolve_right fun hc => by
          rw [hok.completion hc] at hpending
          cases hpending
        have hidle : value.checkpoint.barrier.phase ≠ .idle :=
          (hok.waiting hw).elim hok.busy fun h => h
        have hdone : value.checkpoint.done = true := hok.settled (by
          cases hphase : value.checkpoint.barrier.phase <;>
            simp_all [DiskCheckpoint.pending])
        refine Or.inr ⟨hdone, (hcallers.active id).mp ?_⟩
        rw [activeAt_eq hvalue]
        exact (hok.done hdone).1
  · intro hfair hpending
    have hrounds := rounds_of_run hrun fun _ : True => hfair
    exact RoundInv.one (hrounds.round id value hvalue) hpending trivial
  · intro env alert hrunning hiterated hrouted hawaits
    exact replied_nearer hrun hcompleting hok hrunning hiterated hrouted hawaits
  · intro env c hiterated hcaller hdone
    exact returned_nearer hrun hvalue (hwaiting hdone) hiterated hcaller hdone

/-- **A completion is concluded, with one outcome.** In every run and for every torrent, what
    the trace records of its life is a run of the machine: an outcome is announced once, for a
    completion that has begun, `completed` with `stoppedAfterCompletion` right after it, and
    after at most six replies. The torrent's job is at the stage that this run ends in, and a
    completion that is under way does not stand still. -/
theorem completion_concludes {ls : List Step} (hrun : Lts.exec step {} ls = some w)
    (id : String) :
    ∃ stage, Lts.exec (Stage.step id) .running (life id w.session.trace) = some stage ∧
      ∀ value, w.session.jobs.lookup id = some value →
        value.In stage ∧ (completing value → w.Concluding id value) := by
  obtain ⟨stage, hstage, hin⟩ := courseInv_invariant.of_run hrun id
  exact ⟨stage, hstage, fun value hvalue =>
    ⟨hin value hvalue, concluding_of_completing hrun hvalue⟩⟩

/-- The caller that the completion waits for gets its data, and the flush of the completion is
    answered. -/
def savingRun : List Step :=
  waitingRun ++ [.alert sampleEnvironment ⟨1, .cacheFlushed 7⟩,
    .alert sampleEnvironment ⟨1, .saveResumeData 13 [7]⟩, .resume sampleEnvironment 1,
    .alert sampleEnvironment ⟨1, .cacheFlushed 17⟩]

theorem savingRun_concludes : ∃ value, (after savingRun).session.jobs.lookup "a" = some value ∧
    value.In (.concluding 3) ∧ (after savingRun).Concluding "a" value := by
  obtain ⟨stage, hstage, hjob⟩ := completion_concludes
    (@exec_after savingRun (by decide +kernel)) "a"
  have hthree : Lts.exec (Stage.step "a") .running (life "a" (after savingRun).session.trace) =
      some (.concluding 3) := by decide +kernel
  obtain rfl := Option.some.inj (hstage.symm.trans hthree)
  have hsome : ((after savingRun).session.jobs.lookup "a").isSome = true := by decide +kernel
  obtain ⟨value, hvalue⟩ := Option.isSome_iff_exists.mp hsome
  obtain ⟨hin, hconcluding⟩ := hjob value hvalue
  exact ⟨value, hvalue, hin, hconcluding hin.1⟩

end World

end LibtorrentKit
