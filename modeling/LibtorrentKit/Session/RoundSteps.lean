/-
  Every step of a job keeps `RoundInv`.

  `Work.roundOk` is the step lemma for the calls and `AlertEnd.roundOk` the one for the
  alerts. Both are stated for the entries that the step appends to the trace (`Emits`).
-/
import LibtorrentKit.Session.Rounds
import LibtorrentKit.Session.Slots

namespace LibtorrentKit

open History Session

/-! ## Neutral entries -/

/-- A command that libtorrent need not answer. -/
def Command.IsNeutral (c : Command) : Prop := ∀ h, ¬ IsRequestOn h (.command c)

/-- An entry that belongs to no round. -/
def Entry.IsNeutral : Entry → Prop
  | .began _ _ _ _ | .accepted _ _ | .alert _ _ => False
  | .command c => c.IsNeutral
  | _ => True

def Action.IsNeutral : Action → Prop
  | .began _ _ _ | .accepted _ => False
  | .command c => c.IsNeutral
  | _ => True

theorem Command.isNeutral_of_isPlain {c : Command} (h : c.isPlain = true) : c.IsNeutral := by
  rintro k (hk | hk) <;> cases hk <;> simp [Command.isPlain] at h

theorem Command.isNeutral_remove {h : Handle} {deleteFiles : Bool} :
    (Command.removeTorrent h deleteFiles).IsNeutral := by
  rintro k (hk | hk) <;> cases hk

theorem Tuning.isNeutral {actions : List Action} (h : Tuning actions) :
    ∀ a ∈ actions, a.IsNeutral := by
  intro a ha
  obtain ⟨c, rfl, hc⟩ := h a ha
  exact Command.isNeutral_of_isPlain hc

theorem emits_neutral {id : String} {actions : List Action} {new : List Entry}
    (h : Emits id actions new) (ha : ∀ a ∈ actions, a.IsNeutral) : ∀ e ∈ new, e.IsNeutral := by
  intro e he
  rcases emits_mem h he with ⟨a, hmem, hae⟩ | ⟨stored, json, rfl⟩
  · have hn := ha a hmem
    cases a <;> simp only [actionEntry, Option.some.injEq, reduceCtorEq] at hae <;> subst hae
    · exact hn
    · exact hn
    · exact hn
    · trivial
    · trivial
  · trivial

theorem foreign_of_neutral {honest : Prop} {log : List Entry} {id : String} {h : Handle}
    {slot : CheckpointState} {e : Entry} (he : e.IsNeutral) : Foreign honest log id h slot e := by
  refine ⟨?_, ?_, fun _ _ => ?_, fun _ => ⟨?_, ?_⟩⟩
  · rintro ⟨_, _, _, rfl⟩
    exact he
  · rintro ⟨_, rfl⟩
    exact he
  · rintro ⟨_, rfl, _⟩
    exact he
  · intro hreq
    rcases hreq with rfl | rfl
    · exact he h (Or.inl rfl)
    · exact he h (Or.inr rfl)
  · rintro t ⟨_, _, rfl, _⟩
    exact he.elim

/-! ## One job -/

/-- `RoundInv` for a job. -/
def Job.RoundOk (honest : Prop) (log : List Entry) (id : String) (value : Job) : Prop :=
  RoundInv honest log id value.handle value.completionCheckpoint value.checkpoint

section Steps

variable {honest : Prop} {log new : List Entry} {id : String} {value : Job}

theorem Job.RoundOk.neutral (hr : value.RoundOk honest log id) {actions : List Action}
    (hemits : Emits id actions new) (ha : ∀ a ∈ actions, a.IsNeutral) :
    value.RoundOk honest (log ++ new) id :=
  RoundInv.append hr fun _ he => foreign_of_neutral (emits_neutral hemits ha _ he)

/-- The entries of a round that begins. -/
theorem emits_round {h : Handle} {flush completion : Bool} {c : Command}
    (hemits : Emits id [.began h flush completion, .command c] new) :
    new = [.began id h flush completion, .command c] := by
  obtain ⟨rest, rfl, hrest⟩ := emits_cons (by simp [Exact]) rfl hemits
  obtain ⟨rest', rfl, hnil⟩ := emits_cons (by simp [Exact]) rfl hrest
  obtain rfl : rest' = [] := hnil
  rfl

theorem startWaitingCompletion_roundOk (hr : value.RoundOk honest log id)
    (hback : honest → Backward log) (hemits : Emits id (startWaitingCompletion value).2 new) :
    (startWaitingCompletion value).1.RoundOk honest (log ++ new) id := by
  rcases startWaitingCompletion_cases value with ⟨heq, _⟩ | ⟨_, _, hidle, heq⟩
  · rw [heq] at hemits ⊢
    obtain rfl : new = [] := hemits
    rwa [List.append_nil]
  · rw [heq] at hemits ⊢
    rw [emits_round hemits]
    have hpending : value.checkpoint.barrier.pending = false := by
      simp [DiskCheckpoint.pending, hidle]
    exact roundInv_begin true rfl (fun hh => RoundInv.none hr hpending hh) hback

/-- The slot is freed when no request is unanswered. -/
theorem roundOk_freed (hno : honest → ∀ t, ¬ Open log value.handle t) :
    ({ value with checkpoint := {} } : Job).RoundOk honest log id :=
  RoundInv.of_none (Or.inl rfl) hno

theorem FinishEnd.roundOk {env : Environment} {success : Bool} {worked : Job × List Action}
    (hend : FinishEnd env id value success worked) (hr : value.RoundOk honest log id)
    (hphase : value.checkpoint.barrier.phase = .succeeded ∨
      value.checkpoint.barrier.phase = .failed)
    (hback : honest → Backward log) (hemits : Emits id worked.2 new) :
    worked.1.RoundOk honest (log ++ new) id := by
  have hpending : value.checkpoint.barrier.pending = false := by
    rcases hphase with h | h <;> simp [DiskCheckpoint.pending, h]
  have hno : honest → ∀ t, ¬ Open log value.handle t := fun hh => RoundInv.none hr hpending hh
  cases hend with
  | completion hcompletion hend =>
      cases hend with
      | recheck payloads metadata houtcome =>
          rw [emits_round hemits]
          exact roundInv_begin true rfl hno hback
      | completed payloads metadata houtcome =>
          refine Job.RoundOk.neutral (RoundInv.of_none (Or.inl rfl) hno) hemits ?_
          simp only [List.mem_cons, List.not_mem_nil, or_false, forall_eq_or_imp, forall_eq]
          exact ⟨trivial, Command.isNeutral_remove, trivial⟩
      | failed failure payloads metadata houtcome =>
          refine Job.RoundOk.neutral (RoundInv.of_none (Or.inl rfl) hno) hemits ?_
          simp only [List.mem_cons, List.not_mem_nil, or_false, forall_eq_or_imp, forall_eq]
          exact ⟨trivial, Command.isNeutral_remove⟩
  | answered hcompletion hactive =>
      obtain rfl : new = [] := hemits
      rw [List.append_nil]
      rcases hphase with hs | hf
      · obtain ⟨flush, b, q, k, hsaved⟩ := RoundInv.succeeded hr hs
        simp only [Job.RoundOk, RoundInv, hs]
        refine ⟨flush, b, q, k, hsaved.round, hsaved.issued, hsaved.after, hsaved.reply,
          fun hok => hsaved.clean ?_, hsaved.none⟩
        by_contra hne
        simp [hne] at hok
      · exact RoundInv.of_none (Or.inr hf) hno
  | drained hcompletion hactive =>
      exact startWaitingCompletion_roundOk (roundOk_freed hno) hback hemits

/-- A call keeps the round of its job; the slot is freed in the middle of a round only when
    the session shuts down. -/
theorem Session.Work.roundOk {slot closing : Prop} {env : Environment}
    {worked : Job × List Action} (h : Session.Work slot closing env value worked)
    (hok : value.SlotOk) (hr : value.RoundOk honest log id) (hback : honest → Backward log)
    (hrunning : honest → ¬ closing) (hemits : Emits id worked.2 new) :
    worked.1.RoundOk honest (log ++ new) id := by
  cases h with
  | select hselects htuning =>
      obtain ⟨d, f, p, i, r, l, rfl, _⟩ := hselects
      have h := hr.neutral hemits htuning.isNeutral
      exact h
  | reject =>
      have ha : ∀ a ∈ [Action.command (.pause value.handle),
          .command (.removeTorrent value.handle false)], a.IsNeutral := by
        simp only [List.mem_cons, List.not_mem_nil, or_false, forall_eq_or_imp, forall_eq]
        exact ⟨Command.isNeutral_of_isPlain rfl, Command.isNeutral_remove⟩
      have h := hr.neutral hemits ha
      exact h
  | begin hslot flush hstopped hactive hidle hcompletion =>
      rw [beginCheckpoint_eq] at hemits ⊢
      rw [emits_round hemits]
      have hpending : value.checkpoint.barrier.pending = false := by
        simp [DiskCheckpoint.pending, hidle]
      exact roundInv_begin flush (by cases flush <;> rfl)
        (fun hh => RoundInv.none hr hpending hh) hback
  | abandon hslot hactive =>
      unfold Session.abandonCheckpoint at hemits ⊢
      split at hemits
      · next hd =>
          rw [if_pos hd]
          have hpending : value.checkpoint.barrier.pending = false := by
            rcases (hok.done hd).2 with h | h <;> simp [DiskCheckpoint.pending, h]
          exact startWaitingCompletion_roundOk
            (roundOk_freed fun hh => RoundInv.none hr hpending hh) hback hemits
      · next hd =>
          rw [if_neg hd]
          obtain rfl : new = [] := hemits
          rw [List.append_nil]
          exact RoundInv.congr hr rfl rfl rfl
  | finish hslot hactive hdone =>
      refine startWaitingCompletion_roundOk (roundOk_freed fun hh => ?_) hback hemits
      have hd : value.checkpoint.done = true := hdone.resolve_right (hrunning hh)
      have hpending : value.checkpoint.barrier.pending = false := by
        rcases (hok.done hd).2 with h | h <;> simp [DiskCheckpoint.pending, h]
      exact RoundInv.none hr hpending hh

/-- What an alert that is no reply to this job adds to the trace. -/
theorem foreign_alert {slot : CheckpointState} {h : Handle} {alert : Alert}
    (herror : slot.barrier.pending = true → slot.error = .ok → alert.kind.isError = false)
    (hreply : honest → ∀ r, alert.kind.request = some r → ∀ e, At log r e → ¬ IsRequestOn h e) :
    Foreign honest log id h slot (.alert (some id) alert) := by
  refine ⟨not_began_alert, not_accepted_alert, fun hp hok => ?_, fun hh => ⟨?_, ?_⟩⟩
  · rintro ⟨_, heq, herr⟩
    cases heq
    rw [herror hp hok] at herr
    cases herr
  · rintro (h | h) <;> cases h
  · rintro t ⟨_, _, heq, hreq⟩ e he
    cases heq
    exact hreply hh t hreq e he

/-- An alert keeps the round of the job that it is handed to. -/
theorem AlertEnd.roundOk {env : Environment} {alert : Alert} {worked : Job × List Action}
    (h : AlertEnd env id value alert worked) (hr : value.RoundOk honest log id)
    (hhandle : alert.handle = value.handle)
    (hlog : honest → HonestReplies (log ++ .alert (some id) alert :: new))
    (hemits : Emits id worked.2 new) :
    worked.1.RoundOk honest (log ++ .alert (some id) alert :: new) id := by
  have hlog₁ : honest → HonestReplies (log ++ [.alert (some id) alert]) := fun hh =>
    (hlog hh).anti ⟨new, by simp⟩
  have hlog₂ : ∀ {rest}, new = .accepted id alert :: rest →
      honest → Backward (log ++ [.alert (some id) alert, .accepted id alert]) := by
    rintro rest rfl hh
    exact ((hlog hh).anti ⟨rest, by simp⟩).toBackward
  have hsplit : ∀ l, log ++ Entry.alert (some id) alert :: l =
      (log ++ [.alert (some id) alert]) ++ l := fun l => by simp
  -- an alert that carries no reply is foreign to the round, and neutral entries follow it
  have hquiet : alert.kind.request = none →
      (value.checkpoint.barrier.pending = true → alert.kind.isError = false) →
      (∀ a ∈ worked.2, a.IsNeutral) →
      value.RoundOk honest (log ++ .alert (some id) alert :: new) id := by
    intro hreq herr ha
    rw [hsplit]
    refine Job.RoundOk.neutral (RoundInv.append hr fun e he => ?_) hemits ha
    obtain rfl := List.mem_singleton.mp he
    exact foreign_alert (fun hp _ => herr hp) fun _ r hr' => by simp [hreq] at hr'
  have hfinish : ∀ {phase data success} (fin : Job × List Action) (rest : List Entry),
      FinishEnd env id (value.withReply phase data) success fin →
      phase = .succeeded ∨ phase = .failed → new = .accepted id alert :: rest →
      Emits id fin.2 rest →
      (value.withReply phase data).RoundOk honest
        (log ++ [.alert (some id) alert, .accepted id alert]) id →
      fin.1.RoundOk honest (log ++ .alert (some id) alert :: new) id := by
    intro phase data success fin rest hend hp hnew hrest hround
    have h := hend.roundOk hround hp (hlog₂ hnew) hrest
    rw [hnew]
    simpa using h
  cases h with
  | metadata hkind hselects htuning =>
      obtain ⟨d, f, p, i, r, l, rfl, _⟩ := hselects
      refine hquiet (by rw [hkind]; rfl) (fun _ => by rw [hkind]; rfl) fun a ha => ?_
      rcases List.mem_append.mp ha with ha | ha
      · exact htuning.isNeutral a ha
      · exact List.mem_singleton.mp ha ▸ trivial
  | rejected hkind hselects htuning =>
      obtain ⟨d, f, p, i, r, l, rfl, _⟩ := hselects
      refine hquiet (by rw [hkind]; rfl) (fun _ => by rw [hkind]; rfl) fun a ha => ?_
      rcases List.mem_append.mp ha with ha | ha
      · exact htuning.isNeutral a ha
      · simp only [List.mem_cons, List.not_mem_nil, or_false] at ha
        rcases ha with rfl | rfl | rfl
        · exact Command.isNeutral_of_isPlain rfl
        · exact Command.isNeutral_remove
        · trivial
  | @completing hkind hcompletes worked hworked =>
      obtain ⟨rest, rfl, hrest⟩ := emits_cons (by simp [Exact]) rfl hemits
      obtain ⟨rest', rfl, hrest'⟩ := emits_cons (by simp [Exact]) rfl hrest
      subst hworked
      have hsplit₂ : log ++ .alert (some id) alert :: .command (.pause value.handle) ::
          .completing id value.handle value.desiredFiles :: rest' =
            (log ++ [.alert (some id) alert, .command (.pause value.handle),
              .completing id value.handle value.desiredFiles]) ++ rest' := by simp
      rw [hsplit₂] at hlog ⊢
      refine startWaitingCompletion_roundOk (RoundInv.append hr fun e he => ?_)
        (fun hh => ((hlog hh).anti (List.prefix_append _ _)).toBackward) hrest'
      simp only [List.mem_cons, List.not_mem_nil, or_false] at he
      rcases he with rfl | rfl | rfl
      · exact foreign_alert (fun _ _ => by rw [hkind]; rfl) fun _ r hr' => by
          rw [hkind] at hr'
          cases hr'
      · exact foreign_of_neutral (Command.isNeutral_of_isPlain rfl)
      · exact foreign_of_neutral trivial
  | flushed request hkind hphase =>
      obtain ⟨rest, rfl, hrest⟩ := emits_cons (by simp [Exact]) rfl hemits
      obtain ⟨rest', rfl, hnil⟩ := emits_cons (by simp [Exact]) rfl hrest
      obtain rfl : rest' = [] := hnil
      exact roundInv_flushed hr hphase hkind hhandle hlog₁
  | @saved request data hkind hphase fin hend =>
      obtain ⟨rest, hnew, hrest⟩ := emits_cons (by simp [Exact]) rfl hemits
      exact hfinish fin rest hend (Or.inl rfl) hnew hrest
        (roundInv_saved hr hphase hkind hhandle hlog₁)
  | @saveFailed request hkind hphase fin hend =>
      obtain ⟨rest, hnew, hrest⟩ := emits_cons (by simp [Exact]) rfl hemits
      exact hfinish fin rest hend (Or.inr rfl) hnew hrest
        (roundInv_saveFailed hr hphase hkind hhandle hlog₁)
  | errorNoted hkind hphase =>
      obtain rfl : new = [] := hemits
      have hnoted : RoundInv honest log id value.handle value.completionCheckpoint
          { value.checkpoint with error := .nativeFailure } := hr.noted hphase (by simp)
      refine RoundInv.append hnoted fun e he => ?_
      obtain rfl := List.mem_singleton.mp he
      refine foreign_alert (fun _ hok => by cases hok) fun _ r hreq => ?_
      cases hk : alert.kind <;> simp [hk, AlertKind.isError, AlertKind.request] at hkind hreq
  | errorReported hkind hphase =>
      refine hquiet ?_ (fun hp => by simp [hphase] at hp) fun a ha => ?_
      · cases hk : alert.kind <;> simp [hk, AlertKind.isError] at hkind <;> rfl
      · exact List.mem_singleton.mp ha ▸ trivial
  | status hkind json =>
      refine hquiet (by rw [hkind]; rfl) (fun _ => by rw [hkind]; rfl) fun a ha => ?_
      exact List.mem_singleton.mp ha ▸ trivial
  | ignored herror hflushed hsaved hfailed =>
      obtain rfl : new = [] := hemits
      refine RoundInv.append hr fun e he => ?_
      obtain rfl := List.mem_singleton.mp he
      refine foreign_alert (fun _ _ => herror) fun hh r hreq => ?_
      -- an honest reply would have been accepted
      obtain ⟨h1, h2, h3⟩ := RoundInv.reply_phase hr hh (hlog₁ hh) hhandle
      exfalso
      cases hk : alert.kind <;> simp only [hk, AlertKind.request, reduceCtorEq] at hreq
      · exact hflushed _ hk (h1 _ hk)
      · exact hsaved _ _ hk (h2 _ _ hk)
      · have := hfailed _ hk
        simp [DiskCheckpoint.pending, h3 _ hk] at this

end Steps

end LibtorrentKit
