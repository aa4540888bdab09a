/-
  Completion safety.

  `CompletionInv` carries `Job.CompletionOk` and `Job.Counted` through every run. Together with
  the rounds of the checkpoint slot and with what `refresh_selected_payloads` has verified, they
  say what lies behind every `completed` event; `CompletionSafety` puts it together.
-/
import LibtorrentKit.Session.Fences
import LibtorrentKit.Session.Replies
import LibtorrentKit.Session.Verified

namespace LibtorrentKit

open History Session

/-! ## Steps of one job -/

section Steps

variable {log new : List Entry} {id : String} {value : Job}

theorem Job.CompletionOk.append (h : value.CompletionOk log id)
    (hnew : ∀ e ∈ new, ¬ IsCompleting id e ∧ ¬ IsBegan id e) :
    value.CompletionOk (log ++ new) id := by
  refine ⟨fun hc => ?_, fun hc => ?_⟩
  · obtain ⟨c, ht⟩ := h.triggered hc
    exact ⟨c, ht.append fun e he => (hnew e he).1⟩
  · obtain ⟨c, b, ht, hf⟩ := h.fenced hc
    exact ⟨c, b, ht.append fun e he => (hnew e he).1, hf.append fun e he => (hnew e he).2⟩

theorem Job.CompletionOk.slot (h : value.CompletionOk log id) (slot : CheckpointState) :
    ({ value with checkpoint := slot } : Job).CompletionOk log id :=
  ⟨h.triggered, h.fenced⟩

/-- Nothing is claimed about a job without a completion. -/
theorem Job.CompletionOk.of_none (hw : value.completionWaiting = false)
    (hc : value.completionCheckpoint = false) : value.CompletionOk log id := by
  refine ⟨?_, fun h => ?_⟩
  · rintro (h | h)
    · simp [hw] at h
    · simp [hc] at h
  · simp [hc] at h

theorem Job.Selects.completionOk {value' : Job} (hs : value.Selects value')
    (h : value.CompletionOk log id) : value'.CompletionOk log id := by
  obtain ⟨d, fs, p, i, r, l, rfl, hd⟩ := hs
  refine ⟨fun hc => ?_, fun hc => ?_⟩
  · obtain ⟨c, ht⟩ := h.triggered hc
    have hdesired : d = value.desiredFiles := hd (Or.symm hc)
    exact ⟨c, hdesired ▸ ht⟩
  · obtain ⟨c, b, ht, hf⟩ := h.fenced hc
    have hdesired : d = value.desiredFiles := hd (Or.inl hc)
    exact ⟨c, b, hdesired ▸ ht, hf⟩

/-- The actions neither trigger nor fence. -/
def Action.isTrigger : Action → Bool
  | .began _ _ _ => true
  | .completing _ _ => true
  | _ => false

theorem emits_quiet {actions : List Action} (hemits : Emits id actions new)
    (ha : ∀ a ∈ actions, a.isTrigger = false) (i : String) :
    ∀ e ∈ new, ¬ IsCompleting i e ∧ ¬ IsBegan i e := by
  intro e he
  rcases emits_mem hemits he with ⟨a, hmem, hae⟩ | ⟨stored, json, rfl⟩
  · have hq := ha a hmem
    refine ⟨?_, ?_⟩
    · rintro ⟨_, _, rfl⟩
      cases a <;> simp [actionEntry, Action.isTrigger] at hae hq
    · rintro ⟨_, _, _, rfl⟩
      cases a <;> simp [actionEntry, Action.isTrigger] at hae hq
  · exact ⟨(by rintro ⟨_, _, heq⟩; cases heq), (by rintro ⟨_, _, _, heq⟩; cases heq)⟩

theorem Tuning.quiet {actions : List Action} (h : Tuning actions) :
    ∀ a ∈ actions, a.isTrigger = false := by
  intro a ha
  obtain ⟨c, rfl, _⟩ := h a ha
  rfl

theorem startWaitingCompletion_completionOk (h : value.CompletionOk log id)
    (hemits : Emits id (startWaitingCompletion value).2 new) :
    (startWaitingCompletion value).1.CompletionOk (log ++ new) id := by
  rcases startWaitingCompletion_cases value with ⟨heq, _⟩ | ⟨hw, _, _, heq⟩
  · rw [heq] at hemits ⊢
    obtain rfl : new = [] := hemits
    rwa [List.append_nil]
  · rw [heq] at hemits ⊢
    rw [emits_round hemits]
    obtain ⟨c, ht⟩ := h.triggered (Or.inl hw)
    obtain ⟨ht', hf⟩ := ht.fence (.flushCache value.handle)
    exact ⟨fun _ => ⟨c, ht'⟩, fun _ => ⟨c, _, ht', hf⟩⟩

theorem Session.Work.completionOk {slot closing : Prop} {env : Environment}
    {worked : Job × List Action} (hw : Work slot closing env value worked)
    (h : value.CompletionOk log id) (hemits : Emits id worked.2 new) :
    worked.1.CompletionOk (log ++ new) id := by
  cases hw with
  | select hselects htuning =>
      exact (hselects.completionOk h).append (emits_quiet hemits htuning.quiet id)
  | reject =>
      have hstop : ({ value with stopped := true } : Job).CompletionOk log id :=
        ⟨h.triggered, h.fenced⟩
      exact hstop.append (emits_quiet hemits (by simp [Action.isTrigger]) id)
  | begin hslot flush hstopped hactive hidle hcompletion =>
      rw [beginCheckpoint_eq] at hemits ⊢
      rw [emits_round hemits]
      refine ⟨fun hc => ?_, fun hc => ?_⟩
      · obtain ⟨c, ht⟩ := h.triggered hc
        refine ⟨c, ht.append fun e he => ?_⟩
        simp only [List.mem_cons, List.not_mem_nil, or_false] at he
        rcases he with rfl | rfl <;> rintro ⟨_, _, heq⟩ <;> cases heq
      · simp [hcompletion] at hc
  | abandon hslot hactive =>
      unfold abandonCheckpoint at hemits ⊢
      split at hemits
      · next hd =>
          rw [if_pos hd]
          exact startWaitingCompletion_completionOk (h.slot {}) hemits
      · next hd =>
          rw [if_neg hd]
          obtain rfl : new = [] := hemits
          rw [List.append_nil]
          exact h.slot _
  | finish hslot hactive hdone => exact startWaitingCompletion_completionOk (h.slot {}) hemits

theorem FinishEnd.completionOk {env : Environment} {success : Bool} {worked : Job × List Action}
    (hend : FinishEnd env id value success worked)
    (hexclusive : ¬ (value.completionWaiting = true ∧ value.completionCheckpoint = true))
    (h : value.CompletionOk log id) (hemits : Emits id worked.2 new) :
    worked.1.CompletionOk (log ++ new) id := by
  cases hend with
  | completion hcompletion hend =>
      have hw : value.completionWaiting = false := by
        by_contra hw
        exact hexclusive ⟨by simpa using hw, hcompletion⟩
      cases hend with
      | recheck payloads metadata houtcome =>
          rw [emits_round hemits, hcompletion]
          obtain ⟨c, _, ht, _⟩ := h.fenced hcompletion
          obtain ⟨ht', hf⟩ := ht.fence (.flushCache value.handle)
          exact ⟨fun _ => ⟨c, ht'⟩, fun _ => ⟨c, _, ht', hf⟩⟩
      | completed payloads metadata houtcome => exact .of_none hw rfl
      | failed failure payloads metadata houtcome => exact .of_none hw rfl
  | answered hcompletion hactive =>
      obtain rfl : new = [] := hemits
      rw [List.append_nil]
      exact h.slot _
  | drained hcompletion hactive => exact startWaitingCompletion_completionOk (h.slot {}) hemits

theorem not_trigger_alert {o : Option String} {alert : Alert} :
    ¬ IsCompleting id (.alert o alert) ∧ ¬ IsBegan id (.alert o alert) := by
  refine ⟨?_, not_began_alert⟩
  rintro ⟨_, _, heq⟩
  cases heq

/-- An alert keeps track of the trigger and the fence of the job that it is handed to. -/
theorem AlertEnd.completionOk {env : Environment} {alert : Alert} {worked : Job × List Action}
    (hend : AlertEnd env id value alert worked) (hok : value.SlotOk)
    (hhandle : value.handle = alert.handle) (h : value.CompletionOk log id)
    (hemits : Emits id worked.2 new) :
    worked.1.CompletionOk (log ++ .alert (some id) alert :: new) id := by
  have hsplit : log ++ .alert (some id) alert :: new = (log ++ [.alert (some id) alert]) ++ new := by
    simp
  have halert : value.CompletionOk (log ++ [.alert (some id) alert]) id :=
    h.append fun e he => List.mem_singleton.mp he ▸ not_trigger_alert
  rw [hsplit]
  have hfinish : ∀ {phase data success} (fin : Job × List Action) (rest : List Entry),
      FinishEnd env id (value.withReply phase data) success fin →
      new = .accepted id alert :: rest → Emits id fin.2 rest →
      fin.1.CompletionOk ((log ++ [.alert (some id) alert]) ++ new) id := by
    intro phase data success fin rest hend hnew hrest
    have haccepted : value.CompletionOk ((log ++ [.alert (some id) alert]) ++
        [.accepted id alert]) id := by
      refine halert.append fun e he => ?_
      obtain rfl := List.mem_singleton.mp he
      exact ⟨(by rintro ⟨_, _, heq⟩; cases heq), (by rintro ⟨_, _, _, heq⟩; cases heq)⟩
    have hdone := hend.completionOk hok.exclusive (haccepted.slot _) hrest
    rw [hnew]
    simpa using hdone
  cases hend with
  | metadata hkind hselects htuning =>
      refine (hselects.completionOk halert).append (emits_quiet hemits (fun a ha => ?_) id)
      rcases List.mem_append.mp ha with ha | ha
      · exact htuning.quiet a ha
      · exact List.mem_singleton.mp ha ▸ rfl
  | @rejected hkind value' actions hselects htuning =>
      have hsel := hselects.completionOk halert
      have hstop : ({ value' with stopped := true } : Job).CompletionOk
          (log ++ [.alert (some id) alert]) id := ⟨hsel.triggered, hsel.fenced⟩
      refine hstop.append (emits_quiet hemits (fun a ha => ?_) id)
      rcases List.mem_append.mp ha with ha | ha
      · exact htuning.quiet a ha
      · simp only [List.mem_cons, List.not_mem_nil, or_false] at ha
        rcases ha with rfl | rfl | rfl <;> rfl
  | @completing hkind hcompletes worked hworked =>
      obtain ⟨rest, rfl, hrest⟩ := emits_cons (by simp [Exact]) rfl hemits
      obtain ⟨rest', rfl, hrest'⟩ := emits_cons (by simp [Exact]) rfl hrest
      subst hworked
      have hc : value.completionCheckpoint = false := by
        simp only [completes, Bool.and_eq_true, Bool.not_eq_eq_eq_not, Bool.not_true] at hcompletes
        exact hcompletes.1.1.1.1.2
      have hfinished : Entry.alert (some id) alert =
          .alert (some id) ⟨value.handle, .torrentFinished⟩ := by
        rw [hhandle, ← hkind]
      have htriggered : Triggered ((log ++ [.alert (some id) alert]) ++
          [.command (.pause value.handle), .completing id value.handle value.desiredFiles]) id
          value.handle value.desiredFiles (log.length + 2) := by
        refine ⟨⟨log.length, by omega, ?_⟩, ?_, noneAfter_of_length_le (by simp)⟩
        · rw [← hfinished]
          simp [At]
        · simp [At]
      have hready : ({ value with completionWaiting := true } : Job).CompletionOk
          ((log ++ [.alert (some id) alert]) ++
            [.command (.pause value.handle), .completing id value.handle value.desiredFiles]) id :=
        ⟨fun _ => ⟨_, htriggered⟩, fun hcc => by simp [hc] at hcc⟩
      have hdone := startWaitingCompletion_completionOk hready hrest'
      simpa using hdone
  | flushed request hkind hphase =>
      exact (halert.slot _).append (emits_quiet hemits (by simp [Action.isTrigger]) id)
  | @saved request data hkind hphase fin hend =>
      obtain ⟨rest, hnew, hrest⟩ := emits_cons (by simp [Exact]) rfl hemits
      exact hfinish fin rest hend hnew hrest
  | @saveFailed request hkind hphase fin hend =>
      obtain ⟨rest, hnew, hrest⟩ := emits_cons (by simp [Exact]) rfl hemits
      exact hfinish fin rest hend hnew hrest
  | errorNoted hkind hphase =>
      obtain rfl : new = [] := hemits
      rw [List.append_nil]
      exact halert.slot _
  | errorReported hkind hphase =>
      exact halert.append (emits_quiet hemits (by simp [Action.isTrigger]) id)
  | status hkind json => exact halert.append (emits_quiet hemits (by simp [Action.isTrigger]) id)
  | ignored herror hflushed hsaved hfailed =>
      obtain rfl : new = [] := hemits
      rwa [List.append_nil]

/-- An alert begins a fence or gives a verdict only as the completion of its job does. -/
theorem AlertEnd.counted {env : Environment} {alert : Alert} {worked : Job × List Action}
    (hend : AlertEnd env id value alert worked) (hok : value.SlotOk) {v f : Nat}
    (h : value.Counted v f) : Job.CountedAfter id worked v f := by
  have hinitial : ∀ (pre : List Action) {worked' : Job × List Action},
      tally (Entry.isVerdict id) id pre = 0 → tally (Entry.isFence id) id pre = 0 →
      Job.CountedAfter id worked' v f → Job.CountedAfter id (worked'.1, pre ++ worked'.2) v f := by
    intro pre worked' hv hf hw
    unfold Job.CountedAfter
    rw [tally_append, tally_append, hv, hf, Nat.zero_add, Nat.zero_add]
    exact hw
  cases hend with
  | metadata hkind hselects htuning =>
      exact hinitial _ (htuning.tally fun _ => rfl) (htuning.tally fun _ => rfl)
        ((hselects.counted h).silent rfl rfl)
  | @rejected hkind value' actions hselects htuning =>
      have hsel := hselects.counted h
      have hstop : ({ value' with stopped := true } : Job).Counted v f :=
        ⟨hsel.underWay, fun hb => hsel.before (hb.imp_right fun hs => by simp at hs), hsel.bound⟩
      exact hinitial actions (htuning.tally fun _ => rfl) (htuning.tally fun _ => rfl)
        (hstop.silent rfl rfl)
  | completing hkind hcompletes hworked =>
      subst hworked
      simp only [completes, Bool.and_eq_true, Bool.not_eq_eq_eq_not, Bool.not_true] at hcompletes
      have hready : ({ value with completionWaiting := true } : Job).Counted v f := by
        have hb := h.before (Or.inr ⟨hcompletes.1.1.2, hcompletes.1.1.1.1.2⟩)
        exact ⟨h.underWay, fun _ => hb, h.bound⟩
      exact hinitial [.command (.pause value.handle), .completing value.handle value.desiredFiles]
        rfl rfl (startWaitingCompletion_counted hready)
  | flushed request hkind hphase => exact (h.slot _).silent rfl rfl
  | @saved request data hkind hphase fin hend =>
      exact hinitial [.accepted alert] rfl rfl (hend.counted hok.exclusive (h.slot _))
  | @saveFailed request hkind hphase fin hend =>
      exact hinitial [.accepted alert] rfl rfl (hend.counted hok.exclusive (h.slot _))
  | errorNoted hkind hphase => exact (h.slot _).silent rfl rfl
  | errorReported hkind hphase =>
      refine h.silent ?_ rfl
      simp [tally, actionEntry, Entry.isVerdict, recoverable_ne_completionFailed]
  | status hkind json => exact h.silent rfl rfl
  | ignored herror hflushed hsaved hfailed => exact h.silent rfl rfl

end Steps

end LibtorrentKit
