/-
  How a completion ends: with a `completed` event, a code-16 event or another fence.

  `completionOutcome_failed_iff` and `completionOutcome_completed_iff` say which, from the
  job and from what libtorrent and the disk answer. A job whose completion has ended stays
  that way (`Job.Ended`): no alert and no call takes it up again. What it has cached no call
  changes (`Job.SameFinal`).
-/
import LibtorrentKit.Session.Slots

namespace LibtorrentKit

open Session

/-! ## The verdict -/

theorem completionOutcome_failed_iff (env : Environment) (value : Job) (success : Bool) :
    (∃ failure, completionOutcome env value success = .failed failure) ↔
      success = false ∨
      ((refreshSelectedPayloads env value).2 = false ∧ value.completionRechecked = true) ∨
      ((refreshSelectedPayloads env value).2 = true ∧
        (cacheFinalMetadata env (refreshSelectedPayloads env value).1).finalMetadata = "") := by
  unfold completionOutcome
  cases success with
  | false => simp
  | true =>
      cases (refreshSelectedPayloads env value).2 with
      | false => cases value.completionRechecked <;> simp
      | true =>
          by_cases hm : (cacheFinalMetadata env (refreshSelectedPayloads env value).1).finalMetadata
            = "" <;> simp [hm]

theorem completionOutcome_completed_iff (env : Environment) (value : Job) (success : Bool) :
    completionOutcome env value success = .completed ↔
      success = true ∧ (refreshSelectedPayloads env value).2 = true ∧
        (cacheFinalMetadata env (refreshSelectedPayloads env value).1).finalMetadata ≠ "" := by
  unfold completionOutcome
  cases success with
  | false => simp
  | true =>
      cases (refreshSelectedPayloads env value).2 with
      | false => cases value.completionRechecked <;> simp
      | true => simp

/-- `refresh_selected_payloads` does not look at the slot. -/
theorem refreshSelectedPayloads_withReply (env : Environment) (value : Job) (phase : Phase)
    (data : Bytes) :
    refreshSelectedPayloads env (value.withReply phase data) =
      ((refreshSelectedPayloads env value).1.withReply phase data,
        (refreshSelectedPayloads env value).2) := by
  unfold refreshSelectedPayloads Job.withReply
  dsimp only
  split <;> rfl

theorem cacheFinalMetadata_withReply (env : Environment) (value : Job) (phase : Phase)
    (data : Bytes) :
    cacheFinalMetadata env (value.withReply phase data) =
      (cacheFinalMetadata env value).withReply phase data := by
  unfold cacheFinalMetadata Job.withReply
  dsimp only
  split <;> rfl

/-- The reply that has just been accepted does not change the verdict. -/
theorem completionOutcome_withReply (env : Environment) (value : Job) (phase : Phase)
    (data : Bytes) (success : Bool) :
    completionOutcome env (value.withReply phase data) success =
      completionOutcome env value success := by
  simp only [completionOutcome, refreshSelectedPayloads_withReply, cacheFinalMetadata_withReply]
  rfl

/-! ## What goes to the mailbox -/

/-- The actions submit nothing to the mailbox. -/
def Mailless (actions : List Action) : Prop := ∀ kind json, Action.enqueue kind json ∉ actions

theorem Tuning.mailless {actions : List Action} (h : Tuning actions) : Mailless actions := by
  intro kind json hj
  obtain ⟨_, heq, _⟩ := h _ hj
  cases heq

theorem startWaitingCompletion_mailless (value : Job) :
    Mailless (startWaitingCompletion value).2 := by
  rcases startWaitingCompletion_cases value with ⟨heq, _⟩ | ⟨_, _, _, heq⟩ <;> rw [heq] <;>
    simp [Mailless]

/-- No call on a job submits anything. -/
theorem Session.Work.mailless {slot closing : Prop} {env : Environment} {value : Job}
    {worked : Job × List Action} (h : Work slot closing env value worked) :
    Mailless worked.2 := by
  cases h with
  | select hselects htuning => exact htuning.mailless
  | reject => simp [Mailless]
  | begin hslot flush hstopped hactive hidle hcompletion =>
      rw [beginCheckpoint_eq]
      simp [Mailless]
  | abandon hslot hactive =>
      unfold abandonCheckpoint
      split
      · exact startWaitingCompletion_mailless _
      · simp [Mailless]
  | finish hslot hactive hdone => exact startWaitingCompletion_mailless _

/-! ## Ended completions -/

/-- The completion of the job has ended, or will never begin. -/
structure Job.Ended (value : Job) : Prop where
  stopped : value.stopped = true
  waiting : value.completionWaiting = false
  completion : value.completionCheckpoint = false

theorem startWaitingCompletion_of_not_waiting {value : Job}
    (h : value.completionWaiting = false) : startWaitingCompletion value = (value, []) := by
  simp [startWaitingCompletion, h]

theorem Job.Ended.freed {value : Job} (h : value.Ended) (slot : CheckpointState) :
    (startWaitingCompletion { value with checkpoint := slot }).1.Ended := by
  have hw : ({ value with checkpoint := slot } : Job).completionWaiting = false := h.waiting
  rw [startWaitingCompletion_of_not_waiting hw]
  exact ⟨h.stopped, h.waiting, h.completion⟩

theorem Job.Ended.selects {value value' : Job} (h : value.Ended) (hs : value.Selects value') :
    value'.Ended := by
  obtain ⟨d, f, p, i, r, l, rfl, _⟩ := hs
  exact ⟨h.stopped, h.waiting, h.completion⟩

/-- No call takes an ended completion up again. -/
theorem Session.Work.ended {slot closing : Prop} {env : Environment} {value : Job}
    {worked : Job × List Action} (hw : Work slot closing env value worked) (h : value.Ended) :
    worked.1.Ended := by
  cases hw with
  | select hselects htuning => exact h.selects hselects
  | reject => exact ⟨rfl, h.waiting, h.completion⟩
  | begin hslot flush hstopped => simp [h.stopped] at hstopped
  | abandon hslot hactive =>
      unfold abandonCheckpoint
      split
      · exact h.freed {}
      · exact ⟨h.stopped, h.waiting, h.completion⟩
  | finish hslot hactive hdone => exact h.freed {}

theorem FinishEnd.ended {env : Environment} {id : String} {value : Job} {success : Bool}
    {worked : Job × List Action} (hf : FinishEnd env id value success worked) (h : value.Ended) :
    worked.1.Ended := by
  cases hf with
  | completion hcompletion hend => simp [h.completion] at hcompletion
  | answered hcompletion hactive => exact ⟨h.stopped, h.waiting, h.completion⟩
  | drained hcompletion hactive => exact h.freed {}

/-- No alert takes an ended completion up again. -/
theorem AlertEnd.ended {env : Environment} {id : String} {value : Job} {alert : Alert}
    {worked : Job × List Action} (ha : AlertEnd env id value alert worked) (h : value.Ended) :
    worked.1.Ended := by
  cases ha with
  | metadata hkind hselects htuning => exact h.selects hselects
  | rejected hkind hselects htuning =>
      have h' := h.selects hselects
      exact ⟨rfl, h'.waiting, h'.completion⟩
  | completing hkind hcompletes hworked => simp [completes, h.stopped] at hcompletes
  | flushed request hkind hphase => exact ⟨h.stopped, h.waiting, h.completion⟩
  | saved request data hkind hphase hend =>
      exact hend.ended ⟨h.stopped, h.waiting, h.completion⟩
  | saveFailed request hkind hphase hend =>
      exact hend.ended ⟨h.stopped, h.waiting, h.completion⟩
  | errorNoted hkind hphase => exact ⟨h.stopped, h.waiting, h.completion⟩
  | errorReported hkind hphase => exact h
  | status hkind json => exact h
  | ignored herror hflushed hsaved hfailed => exact h

/-- A completion that ends is ended. -/
theorem CompletionEnd.ended {env : Environment} {id : String} {value : Job} {success : Bool}
    {worked : Job × List Action} (h : CompletionEnd env id value success worked)
    (hw : value.completionWaiting = false)
    (hout : completionOutcome env value success ≠ .recheck) : worked.1.Ended := by
  cases h with
  | recheck payloads metadata houtcome => exact absurd houtcome hout
  | completed payloads metadata houtcome => exact ⟨rfl, hw, rfl⟩
  | failed failure payloads metadata houtcome => exact ⟨rfl, hw, rfl⟩

/-! ## What a completion has cached -/

/-- The job keeps what a completion has cached. -/
def Job.SameFinal (value value' : Job) : Prop :=
  value'.finalMetadata = value.finalMetadata ∧ value'.finalStatus = value.finalStatus ∧
    value'.finalResumeData = value.finalResumeData

theorem Job.Selects.sameFinal {value value' : Job} (h : value.Selects value') :
    value.SameFinal value' := by
  obtain ⟨d, f, p, i, r, l, rfl, _⟩ := h
  exact ⟨rfl, rfl, rfl⟩

theorem startWaitingCompletion_sameFinal (value : Job) :
    value.SameFinal (startWaitingCompletion value).1 := by
  rcases startWaitingCompletion_cases value with ⟨heq, _⟩ | ⟨_, _, _, heq⟩ <;> rw [heq] <;>
    exact ⟨rfl, rfl, rfl⟩

/-- No call changes what is cached. -/
theorem Session.Work.sameFinal {slot closing : Prop} {env : Environment} {value : Job}
    {worked : Job × List Action} (h : Work slot closing env value worked) :
    value.SameFinal worked.1 := by
  cases h with
  | select hselects htuning => exact hselects.sameFinal
  | reject => exact ⟨rfl, rfl, rfl⟩
  | begin hslot flush =>
      rw [beginCheckpoint_eq]
      exact ⟨rfl, rfl, rfl⟩
  | abandon hslot hactive =>
      unfold abandonCheckpoint
      split
      · exact startWaitingCompletion_sameFinal { value with checkpoint := {} }
      · exact ⟨rfl, rfl, rfl⟩
  | finish hslot hactive hdone =>
      exact startWaitingCompletion_sameFinal { value with checkpoint := {} }

/-! ## Alerts that end a completion in failure -/

/-- Handing `alert` to the job ends its completion with a code-16 event: the save has failed
    or an error is on record, the payloads are incomplete once more, or there is no metadata
    to keep. -/
def Job.failsCompletion (env : Environment) (value : Job) (alert : Alert) : Bool :=
  value.completionCheckpoint &&
    match alert.kind with
    | .saveResumeDataFailed _ => value.checkpoint.barrier.pending
    | .saveResumeData _ _ =>
        decide (value.checkpoint.barrier.phase = .saving) &&
          (decide (value.checkpoint.error ≠ .ok) ||
            let (read, ok) := refreshSelectedPayloads env value
            if ok then decide ((cacheFinalMetadata env read).finalMetadata = "")
            else value.completionRechecked)
    | _ => false

theorem Job.failsCompletion_saved {env : Environment} {value : Job} {alert : Alert} {request : Nat}
    {data : Bytes} (hkind : alert.kind = .saveResumeData request data)
    (hphase : value.checkpoint.barrier.phase = .saving) :
    value.failsCompletion env alert = true ↔ value.completionCheckpoint = true ∧
      ∃ failure, completionOutcome env value (decide (value.checkpoint.error = .ok)) =
        .failed failure := by
  rw [completionOutcome_failed_iff]
  simp only [Job.failsCompletion, hkind, hphase, decide_true, Bool.true_and, Bool.and_eq_true,
    Bool.or_eq_true, decide_eq_true_eq, decide_eq_false_iff_not, ne_eq]
  cases (refreshSelectedPayloads env value).2 <;> simp

theorem Job.failsCompletion_saveFailed {env : Environment} {value : Job} {alert : Alert}
    {request : Nat} (hkind : alert.kind = .saveResumeDataFailed request)
    (hphase : value.checkpoint.barrier.pending = true) :
    value.failsCompletion env alert = true ↔ value.completionCheckpoint = true := by
  simp [Job.failsCompletion, hkind, hphase]

end LibtorrentKit
