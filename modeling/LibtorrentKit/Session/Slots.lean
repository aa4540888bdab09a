/-
  The checkpoint slot of a job.

  Five flags and the phase of a barrier say who owns the slot: nobody, a caller of
  `ltkit_session_checkpoint`, an abandoned request, or the completion. `Job.SlotOk` is what
  always holds of them. Every function that frees the slot goes through
  `startWaitingCompletion`, which turns `Job.SlotPre` into `Job.SlotOk`: a completion that
  waits while the slot is free is started at once.

  `Session.activeAt` says that a caller owns the slot; only a checkpoint call changes it.
-/
import LibtorrentKit.Session.Moves

namespace LibtorrentKit

/-- What holds of the slot whether or not a completion waits for it. -/
structure Job.SlotPre (value : Job) : Prop where
  completion : value.completionCheckpoint = true → value.checkpoint.barrier.pending = true
  exclusive : ¬ (value.completionWaiting = true ∧ value.completionCheckpoint = true)
  owner : ¬ (value.checkpoint.active = true ∧ value.completionCheckpoint = true)
  done : value.checkpoint.done = true → value.checkpoint.active = true ∧
    (value.checkpoint.barrier.phase = .succeeded ∨ value.checkpoint.barrier.phase = .failed)
  settled : value.checkpoint.barrier.phase = .succeeded ∨
    value.checkpoint.barrier.phase = .failed → value.checkpoint.done = true
  busy : value.checkpoint.active = true → value.checkpoint.barrier.phase ≠ .idle
  result : value.checkpoint.barrier.phase = .failed → value.checkpoint.error ≠ .ok

/-- What always holds of the slot. -/
structure Job.SlotOk (value : Job) : Prop extends value.SlotPre where
  waiting : value.completionWaiting = true →
    value.checkpoint.active = true ∨ value.checkpoint.barrier.phase ≠ .idle

/-- What the slot of a job is made of. -/
def Job.SameSlot (value value' : Job) : Prop :=
  value'.completionCheckpoint = value.completionCheckpoint ∧
    value'.completionWaiting = value.completionWaiting ∧ value'.checkpoint = value.checkpoint

theorem Job.SameSlot.slotOk {value value' : Job} (h : value.SameSlot value') (hok : value.SlotOk) :
    value'.SlotOk := by
  obtain ⟨hc, hw, hk⟩ := h
  obtain ⟨⟨h1, h2, h3, h4, h5, h6, h7⟩, h8⟩ := hok
  exact ⟨⟨by rwa [hc, hk], by rwa [hc, hw], by rwa [hc, hk], by rwa [hk], by rwa [hk], by rwa [hk],
    by rwa [hk]⟩, by rwa [hw, hk]⟩

theorem Job.Selects.sameSlot {value value' : Job} (h : value.Selects value') :
    value.SameSlot value' := by
  obtain ⟨d, f, p, i, r, l, rfl, _⟩ := h
  exact ⟨rfl, rfl, rfl⟩

/-! ## Starting the waiting completion -/

theorem startWaitingCompletion_slotOk {value : Job} (h : value.SlotPre) :
    (startWaitingCompletion value).1.SlotOk := by
  rcases startWaitingCompletion_cases value with ⟨heq, hw⟩ | ⟨_, ha, _, heq⟩
  · rw [heq]
    exact ⟨h, hw⟩
  · have hd : value.checkpoint.done = false := by
      by_contra hd
      have := (h.done (by simpa using hd)).1
      simp [ha] at this
    rw [heq]
    constructor
    · constructor <;> simp [Job.completionStarted, DiskCheckpoint.pending, ha, hd]
    · simp [Job.completionStarted]

/-- Freeing the slot of a job that is not in its completion. -/
theorem freed_slotPre {value : Job} (hc : value.completionCheckpoint = false) :
    ({ value with checkpoint := {} } : Job).SlotPre := by
  constructor <;> simp [hc]

/-! ## One job -/

theorem beginCheckpoint_slotOk {value : Job} {flush : Bool}
    (hc : value.completionCheckpoint = false) :
    (Session.beginCheckpoint value flush).1.SlotOk := by
  rw [beginCheckpoint_eq]
  constructor
  · constructor <;> cases flush <;> simp [hc]
  · simp

theorem Job.SlotOk.not_completion {value : Job} (h : value.SlotOk)
    (ha : value.checkpoint.active = true) : value.completionCheckpoint = false := by
  by_contra hc
  exact h.owner ⟨ha, by simpa using hc⟩

/-- A call keeps the slot in order. -/
theorem Session.Work.slotOk {slot closing : Prop} {env : Environment} {value : Job}
    {worked : Job × List Action} (h : Session.Work slot closing env value worked)
    (hok : value.SlotOk) : worked.1.SlotOk := by
  cases h with
  | select hselects htuning => exact hselects.sameSlot.slotOk hok
  | reject =>
      have hsame : value.SameSlot { value with stopped := true } := ⟨rfl, rfl, rfl⟩
      exact hsame.slotOk hok
  | begin hslot flush hstopped hactive hidle hcompletion => exact beginCheckpoint_slotOk hcompletion
  | abandon hslot hactive =>
      unfold Session.abandonCheckpoint
      split
      · exact startWaitingCompletion_slotOk (freed_slotPre (hok.not_completion hactive))
      · next hd =>
          have hphase := hok.busy hactive
          have hc := hok.not_completion hactive
          constructor
          · constructor
            · simp [hc]
            · simp [hc]
            · simp
            · simp [hd]
            · exact hok.settled
            · simp
            · exact hok.result
          · exact fun _ => Or.inr hphase
  | finish hslot hactive =>
      exact startWaitingCompletion_slotOk (freed_slotPre (hok.not_completion hactive))

/-! ## The end of a checkpoint -/

/-- The end of a completion's checkpoint leaves the slot in order: it is fenced once more, or
    free. -/
theorem CompletionEnd.slotOk {env : Environment} {id : String} {value : Job} {success : Bool}
    {worked : Job × List Action} (h : CompletionEnd env id value success worked)
    (hw : value.completionWaiting = false) : worked.1.SlotOk := by
  cases h with
  | recheck payloads metadata _ =>
      constructor
      · constructor <;> simp [hw, DiskCheckpoint.pending]
      · simp
  | completed payloads metadata _ =>
      constructor
      · constructor <;> simp
      · simp [hw]
  | failed failure payloads metadata _ =>
      constructor
      · constructor <;> simp
      · simp [hw]


/-- `finish_checkpoint`, in the critical section in which a reply was accepted. -/
theorem FinishEnd.slotOk {env : Environment} {id : String} {value : Job} {success : Bool}
    {phase : Phase} {data : Bytes} {worked : Job × List Action}
    (h : FinishEnd env id (value.withReply phase data) success worked) (hok : value.SlotOk)
    (hphase : phase = .succeeded ∨ phase = .failed ∧ success = false) : worked.1.SlotOk := by
  cases h with
  | completion hcompletion hend =>
      refine hend.slotOk ?_
      by_contra hw
      exact hok.exclusive ⟨(Bool.not_eq_false _).mp hw, hcompletion⟩
  | answered hcompletion hactive =>
      have hc : value.completionCheckpoint = false := hcompletion
      have ha : value.checkpoint.active = true := hactive
      constructor
      · constructor
        · simp [Job.withReply, hc]
        · simp [Job.withReply, hc]
        · simp [Job.withReply, hc]
        · rcases hphase with rfl | ⟨rfl, _⟩ <;> simp [Job.withReply, ha]
        · simp [Job.withReply]
        · rcases hphase with rfl | ⟨rfl, _⟩ <;> simp [Job.withReply]
        · rcases hphase with rfl | ⟨rfl, rfl⟩ <;> simp [Job.withReply]
      · exact fun _ => Or.inl ha
  | drained hcompletion hactive => exact startWaitingCompletion_slotOk (freed_slotPre hcompletion)

/-- A pending barrier is neither idle nor settled. -/
theorem Job.SlotOk.done_of_pending {value : Job} (h : value.SlotOk)
    (hp : value.checkpoint.barrier.pending = true) : value.checkpoint.done = false := by
  by_contra hd
  rcases (h.done (by simpa using hd)).2 with hs | hf
  · simp [DiskCheckpoint.pending, hs] at hp
  · simp [DiskCheckpoint.pending, hf] at hp

/-- An alert keeps the slot in order. -/
theorem AlertEnd.slotOk {env : Environment} {id : String} {value : Job} {alert : Alert}
    {worked : Job × List Action} (h : AlertEnd env id value alert worked) (hok : value.SlotOk) :
    worked.1.SlotOk := by
  cases h with
  | metadata hkind hselects htuning => exact hselects.sameSlot.slotOk hok
  | @rejected hkind value' actions hselects htuning =>
      have hsame : value'.SameSlot { value' with stopped := true } := ⟨rfl, rfl, rfl⟩
      exact hsame.slotOk (hselects.sameSlot.slotOk hok)
  | completing hkind hcompletes hworked =>
      subst hworked
      simp only [completes, Bool.and_eq_true, Bool.not_eq_eq_eq_not, Bool.not_true] at hcompletes
      obtain ⟨⟨⟨⟨⟨_, hc⟩, _⟩, _⟩, _⟩, _⟩ := hcompletes
      refine startWaitingCompletion_slotOk ⟨?_, ?_, ?_, hok.done, hok.settled, hok.busy, hok.result⟩
      · simp [hc]
      · simp [hc]
      · simp [hc]
  | flushed request hkind hphase =>
      have hd := hok.done_of_pending (by simp [DiskCheckpoint.pending, hphase])
      have hsaving : (value.withReply .saving value.checkpoint.data).SlotPre := by
        refine ⟨fun _ => rfl, hok.exclusive, hok.owner, ?_, ?_, ?_, ?_⟩
        · simp [Job.withReply, hd]
        · simp [Job.withReply]
        · simp [Job.withReply]
        · simp [Job.withReply]
      exact ⟨hsaving, by simp [Job.withReply]⟩
  | saved request data hkind hphase hend => exact hend.slotOk hok (Or.inl rfl)
  | saveFailed request hkind hphase hend => exact hend.slotOk hok (Or.inr ⟨rfl, rfl⟩)
  | errorNoted hkind hphase =>
      have hnoted : ({ value with checkpoint := { value.checkpoint with error := .nativeFailure } } :
          Job).SlotPre :=
        ⟨hok.completion, hok.exclusive, hok.owner, hok.done, hok.settled, hok.busy, by simp⟩
      exact ⟨hnoted, hok.waiting⟩
  | errorReported hkind hphase => exact hok
  | status hkind json => exact hok
  | ignored herror hflushed hsaved hfailed => exact hok

/-! ## Who owns the slot -/

@[simp] theorem startWaitingCompletion_active (value : Job) :
    (startWaitingCompletion value).1.checkpoint.active = value.checkpoint.active := by
  rcases startWaitingCompletion_cases value with ⟨heq, _⟩ | ⟨_, _, _, heq⟩ <;> rw [heq]
  rfl

/-- Only a checkpoint call takes or frees the slot for a caller. -/
theorem Session.Work.active {closing : Prop} {env : Environment} {value : Job}
    {worked : Job × List Action} (h : Session.Work False closing env value worked) :
    worked.1.checkpoint.active = value.checkpoint.active := by
  cases h with
  | select hselects htuning => rw [hselects.sameSlot.2.2]
  | reject => rfl
  | begin hslot => exact hslot.elim
  | abandon hslot => exact hslot.elim
  | finish hslot => exact hslot.elim

/-- No alert takes the slot from its caller. -/
theorem FinishEnd.active {env : Environment} {id : String} {value : Job} {success : Bool}
    {worked : Job × List Action} (h : FinishEnd env id value success worked)
    (howner : ¬ (value.checkpoint.active = true ∧ value.completionCheckpoint = true)) :
    worked.1.checkpoint.active = value.checkpoint.active := by
  cases h with
  | completion hcompletion hend =>
      have ha : value.checkpoint.active = false := by
        by_contra ha
        exact howner ⟨by simpa using ha, hcompletion⟩
      cases hend <;> exact ha.symm
  | answered hcompletion hactive => rfl
  | drained hcompletion hactive => rw [startWaitingCompletion_active, hactive]

theorem AlertEnd.active {env : Environment} {id : String} {value : Job} {alert : Alert}
    {worked : Job × List Action} (h : AlertEnd env id value alert worked) (hok : value.SlotOk) :
    worked.1.checkpoint.active = value.checkpoint.active := by
  cases h with
  | metadata hkind hselects htuning => rw [hselects.sameSlot.2.2]
  | rejected hkind hselects htuning =>
      have := hselects.sameSlot.2.2
      simp [this]
  | completing hkind hcompletes hworked =>
      subst hworked
      rw [startWaitingCompletion_active]
  | saved request data hkind hphase hend => exact hend.active hok.owner
  | saveFailed request hkind hphase hend => exact hend.active hok.owner
  | flushed | errorNoted | errorReported | status | ignored => rfl

/-! ## The session -/

namespace Session

/-- The slots of all jobs are in order. -/
def Slots (s : Session) : Prop := ∀ id value, s.jobs.lookup id = some value → value.SlotOk

/-- A property of all jobs, after one of them was set. -/
theorem forall_jobs_insert {P : String → Job → Prop} {s s' : Session} {id : String}
    {value' : Job} (hjobs : s'.jobs = s.jobs.insert id value') (hself : P id value')
    (hothers : ∀ i value, i ≠ id → s.jobs.lookup i = some value → P i value) :
    ∀ i value, s'.jobs.lookup i = some value → P i value := by
  intro i value hv
  rw [hjobs] at hv
  by_cases hi : i = id
  · subst hi
    rw [Finmap.lookup_insert] at hv
    obtain rfl := Option.some.inj hv
    exact hself
  · rw [Finmap.lookup_insert_of_ne _ hi] at hv
    exact hothers i value hi hv

theorem Updated.activeAt {s s' : Session} {id : String} {worked : Job × List Action}
    {new : List Entry} (hu : s.Updated s' id worked new) (i : String) :
    s'.activeAt i = if i = id then worked.1.checkpoint.active else s.activeAt i := by
  unfold Session.activeAt
  rw [hu.jobs]
  by_cases hi : i = id
  · subst hi
    simp
  · rw [Finmap.lookup_insert_of_ne _ hi, if_neg hi]

/-- Work that leaves `active` as it was leaves `activeAt` as it was. -/
theorem Updated.activeAt_same {s s' : Session} {id : String} {value : Job}
    {worked : Job × List Action} {new : List Entry} (hu : s.Updated s' id worked new)
    (hvalue : s.jobs.lookup id = some value)
    (hsame : worked.1.checkpoint.active = value.checkpoint.active) (i : String) :
    s'.activeAt i = s.activeAt i := by
  rw [hu.activeAt]
  split
  · next hi => rw [hi, activeAt_eq hvalue, hsame]
  · rfl

theorem popEvent_jobs {s s' : Session} {env : Environment} {json : String}
    (h : s.popEvent env json = some s') : s'.jobs = s.jobs := by
  unfold popEvent at h
  split at h
  · obtain rfl := Option.some.inj h
    rfl
  · cases h

theorem remove_jobs {s : Session} {id : String} {value : Job} {deleteFiles : Bool}
    (hvalue : s.jobs.lookup id = some value) (hactive : value.checkpoint.active = false) :
    (s.ltkitSessionRemove id deleteFiles).1.jobs = s.jobs.erase id := by
  simp only [ltkitSessionRemove, hvalue, hactive, Bool.false_eq_true, if_false]
  split <;> rfl

theorem Move.slots {slot : String → Prop} {s s' : Session} (h : Move slot s s') (hs : s.Slots) :
    s'.Slots := by
  cases h with
  | error e => exact hs
  | wake => exact hs
  | read env json hfront hpop =>
      unfold Slots
      rw [popEvent_jobs hpop]
      exact hs
  | work env id hvalue hwork hupdate =>
      obtain ⟨new, hu⟩ := update_spec hupdate
      exact forall_jobs_insert hu.jobs (hwork.slotOk (hs _ _ hvalue))
        fun i value _ hv => hs i value hv

theorem Life.slots {s s' : Session} (h : Life s s') (hs : s.Slots) : s'.Slots := by
  cases h with
  | insert env r params desired handle hrunning hfree hcan hadd hinsert =>
      refine forall_jobs_insert (insertJob_spec hinsert).1 ?_ fun i value _ hv => hs i value hv
      constructor
      · constructor <;> simp [newJob]
      · simp [newJob]
  | remove id value deleteFiles hvalue hactive =>
      intro i v hv
      rw [remove_jobs hvalue hactive] at hv
      by_cases hi : i = id
      · subst hi
        simp at hv
      · rw [Finmap.lookup_erase_ne hi] at hv
        exact hs i v hv

theorem handleAlert_slots {s s' : Session} {env : Environment} {alert : Alert}
    (h : s.handleAlert env alert = some s') (hs : s.Slots) : s'.Slots := by
  rcases handleAlert_cases h with rfl | ⟨id, value, hvalue, _, _, hupdate⟩
  · exact hs
  · obtain ⟨new, hu⟩ := update_spec hupdate
    exact forall_jobs_insert hu.jobs ((onAlert_end env id value alert).slotOk (hs _ _ hvalue))
      fun i value _ hv => hs i value hv

/-- Only a checkpoint call takes or frees a slot for its caller. -/
theorem Move.activeAt {s s' : Session} (h : Move (fun _ => False) s s') (i : String) :
    s'.activeAt i = s.activeAt i := by
  cases h with
  | error e => rfl
  | wake => rfl
  | read env json hfront hpop =>
      unfold Session.activeAt
      rw [popEvent_jobs hpop]
  | work env id hvalue hwork hupdate =>
      obtain ⟨new, hu⟩ := update_spec hupdate
      exact hu.activeAt_same hvalue hwork.active i

theorem Life.activeAt {s s' : Session} (h : Life s s') (i : String) :
    s'.activeAt i = s.activeAt i := by
  cases h with
  | insert env r params desired handle hrunning hfree hcan hadd hinsert =>
      unfold Session.activeAt
      rw [(insertJob_spec hinsert).1]
      by_cases hi : i = r.identifier
      · subst hi
        rw [Finmap.lookup_insert, Finmap.lookup_eq_none.mpr hfree]
        rfl
      · rw [Finmap.lookup_insert_of_ne _ hi]
  | remove id value deleteFiles hvalue hactive =>
      unfold Session.activeAt
      rw [remove_jobs hvalue hactive]
      by_cases hi : i = id
      · subst hi
        rw [Finmap.lookup_erase, hvalue]
        exact hactive.symm
      · rw [Finmap.lookup_erase_ne hi]

theorem handleAlert_activeAt {s s' : Session} {env : Environment} {alert : Alert}
    (h : s.handleAlert env alert = some s') (hs : s.Slots) (i : String) :
    s'.activeAt i = s.activeAt i := by
  rcases handleAlert_cases h with rfl | ⟨id, value, hvalue, _, _, hupdate⟩
  · rfl
  · obtain ⟨new, hu⟩ := update_spec hupdate
    exact hu.activeAt_same hvalue ((onAlert_end env id value alert).active (hs _ _ hvalue)) i

theorem Moves.slots {slot : String → Prop} {s s' : Session} (h : Moves slot s s') (hs : s.Slots) :
    s'.Slots := by
  induction h with
  | refl => exact hs
  | tail _ hmove ih => exact hmove.slots ih

theorem Moves.activeAt {s s' : Session} (h : Moves (fun _ => False) s s') (i : String) :
    s'.activeAt i = s.activeAt i := by
  induction h with
  | refl => rfl
  | tail _ hmove ih => rw [hmove.activeAt i, ih]

end Session

end LibtorrentKit
