/-
  What becomes of an engine error.

  An error alert is reported at once as an event, unless a round of its torrent waits for a
  reply: then it is put on record in the slot, for the caller or the completion that owns the
  round. `World.NoErrorSwallowed` says that every error is reported in one of these ways, goes
  with its torrent, or is still on record for somebody who was there when it came.
  `errors_not_swallowed` shows that of every state of every run that takes no step that
  `World.swallows`: no error comes while an abandoned request holds the slot, and no caller
  gives up a round in which an error has come. `abandonedRun` is a run that loses one.
-/
import LibtorrentKit.Session.Watch

namespace LibtorrentKit

open History Session

/-! ## What an alert does to an error on record -/

/-- The error stays on record for the owner of the slot, or the completion that owns it fails. -/
def KeepsError (id : String) (value : Job) (worked : Job × List Action) : Prop :=
  (worked.1.checkpoint.error = .nativeFailure ∧
    worked.1.completionCheckpoint = value.completionCheckpoint ∧ BeginsNone worked.2) ∨
  (value.completionCheckpoint = true ∧ BeginsNone worked.2 ∧
    .enqueue .error (completionFailedJson id .checkpoint) ∈ worked.2)

theorem FinishEnd.keepsError {env : Environment} {id : String} {value : Job} {success : Bool}
    {worked : Job × List Action} (h : FinishEnd env id value success worked)
    (herror : value.checkpoint.error = .nativeFailure)
    (howned : value.checkpoint.active = true ∨ value.completionCheckpoint = true) :
    KeepsError id value worked := by
  have hfailed : (success && decide (value.checkpoint.error = .ok)) = false := by simp [herror]
  cases h with
  | completion hcompletion hend =>
      rw [hfailed] at hend
      cases hend with
      | recheck payloads metadata houtcome => simp [completionOutcome] at houtcome
      | completed payloads metadata houtcome => simp [completionOutcome] at houtcome
      | failed failure payloads metadata houtcome =>
          obtain rfl : .checkpoint = failure := by simpa [completionOutcome] using houtcome
          exact Or.inr ⟨hcompletion, by simp [BeginsNone], List.mem_cons_self⟩
  | answered hcompletion hactive =>
      refine Or.inl ⟨?_, rfl, by simp [BeginsNone]⟩
      simp [hfailed]
  | drained hcompletion hactive => simp [hactive, hcompletion] at howned

theorem BeginsNone.append {xs ys : List Action} (hx : BeginsNone xs) (hy : BeginsNone ys) :
    BeginsNone (xs ++ ys) := by
  intro handle flush completion ha
  rcases List.mem_append.mp ha with ha | ha
  · exact hx _ _ _ ha
  · exact hy _ _ _ ha

theorem AlertEnd.keepsError {env : Environment} {id : String} {value : Job} {alert : Alert}
    {worked : Job × List Action} (h : AlertEnd env id value alert worked)
    (herror : value.checkpoint.error = .nativeFailure)
    (howned : value.checkpoint.active = true ∨ value.completionCheckpoint = true) :
    KeepsError id value worked := by
  have hfinish : ∀ {phase data success} {fin : Job × List Action},
      FinishEnd env id (value.withReply phase data) success fin →
      KeepsError id value (fin.1, .accepted alert :: fin.2) := by
    intro phase data success fin hend
    rcases hend.keepsError herror howned with ⟨he, hc, hb⟩ | ⟨hc, hb, hm⟩
    · exact Or.inl ⟨he, hc, @BeginsNone.append [_] _ (by simp [BeginsNone]) hb⟩
    · exact Or.inr ⟨hc, @BeginsNone.append [_] _ (by simp [BeginsNone]) hb,
        List.mem_cons_of_mem _ hm⟩
  cases h with
  | metadata hkind hselects htuning =>
      obtain ⟨hc, _, hk⟩ := hselects.sameSlot
      exact Or.inl ⟨hk ▸ herror, hc, htuning.beginsNone.append (by simp [BeginsNone])⟩
  | rejected hkind hselects htuning =>
      obtain ⟨hc, _, hk⟩ := hselects.sameSlot
      refine Or.inl ⟨?_, hc, htuning.beginsNone.append (by simp [BeginsNone])⟩
      exact hk ▸ herror
  | completing hkind hcompletes hworked =>
      -- a completion that is under way is not triggered again
      have hc : value.completionCheckpoint = false := by
        simp only [completes, Bool.and_eq_true, Bool.not_eq_eq_eq_not, Bool.not_true] at hcompletes
        exact hcompletes.1.1.1.1.2
      have hactive : ({ value with completionWaiting := true } : Job).checkpoint.active = true :=
        howned.resolve_right (by simp [hc])
      rw [startWaitingCompletion_of_active hactive] at hworked
      subst hworked
      exact Or.inl ⟨herror, rfl, by simp [BeginsNone]⟩
  | flushed request hkind hphase => exact Or.inl ⟨herror, rfl, by simp [BeginsNone]⟩
  | saved request data hkind hphase hend => exact hfinish hend
  | saveFailed request hkind hphase hend => exact hfinish hend
  | errorNoted hkind hphase => exact Or.inl ⟨rfl, rfl, by simp [BeginsNone]⟩
  | errorReported hkind hphase => exact Or.inl ⟨herror, rfl, by simp [BeginsNone]⟩
  | status hkind json => exact Or.inl ⟨herror, rfl, by simp [BeginsNone]⟩
  | ignored herr hflushed hsaved hfailed => exact Or.inl ⟨herror, rfl, by simp [BeginsNone]⟩

/-! ## Steps that leave the slot alone -/

/-- The entry begins neither a round nor a life of `id`. -/
def Aside (id : String) (e : Entry) : Prop := ¬ IsBegan id e ∧ e ≠ .mail (.begin id)

theorem aside_of_outside {id : String} {e : Entry} (h : ¬ e.Concerns id) : Aside id e := by
  refine ⟨(not_trigger_of_outside h).2, ?_⟩
  rintro rfl
  exact h rfl

theorem BeginsNone.aside {id : String} {actions : List Action} {new : List Entry}
    (h : BeginsNone actions) (hemits : Emits id actions new) (i : String) :
    ∀ e ∈ new, Aside i e :=
  fun e he => ⟨h.emits hemits i e he, emits_not_begin hemits i e he⟩

/-- An error that has come in the round of `id` is remembered while the round lasts. -/
theorem noted_append {id : String} {log new : List Entry} (h : (watch id log).noted = true)
    (hnew : ∀ e ∈ new, Aside id e) : (watch id (log ++ new)).noted = true := by
  induction new using List.reverseRecOn with
  | nil => rwa [List.append_nil]
  | append_singleton new e ih =>
      have hbefore := ih fun x hx => hnew x (List.mem_append_left _ hx)
      obtain ⟨hbegan, hbegin⟩ := hnew e (List.mem_append_right _ (List.mem_singleton_self e))
      rw [← List.append_assoc, watch_append]
      simp only [List.foldl_cons, List.foldl_nil]
      cases e with
      | began i handle flush completion =>
          have hi : i ≠ id := fun hi => hbegan ⟨handle, flush, completion, by rw [hi]⟩
          rw [Watch.next, if_neg hi]
          exact hbefore
      | accepted i alert =>
          rw [Watch.next]
          split <;> exact hbefore
      | alert o alert =>
          rw [Watch.next]
          split
          · rfl
          · exact hbefore
      | mail event =>
          cases event with
          | «begin» i =>
              have hi : i ≠ id := fun hi => hbegin (by rw [hi])
              rw [Watch.next, if_neg hi]
              exact hbefore
          | _ => exact hbefore
      | _ => exact hbefore

namespace Session

/-- The slot of `id` is as it was, and no round of it has begun. -/
structure Holds (id : String) (s s' : Session) : Prop where
  job : ∀ value, s.jobs.lookup id = some value →
    ∃ value', s'.jobs.lookup id = some value' ∧ value.SameSlot value'
  grown : Grown (Aside id) s s'

namespace Holds

variable {id : String} {s s' t : Session}

theorem same (hjobs : s'.jobs = s.jobs) (htrace : s'.trace = s.trace) : Holds id s s' where
  job := fun value hv => ⟨value, hjobs ▸ hv, rfl, rfl, rfl⟩
  grown := .same htrace

theorem trans (h : Holds id s t) (h' : Holds id t s') : Holds id s s' := by
  refine ⟨fun value hv => ?_, h.grown.trans h'.grown⟩
  obtain ⟨v, hv', hc, hw, hk⟩ := h.job value hv
  obtain ⟨v', hv'', hc', hw', hk'⟩ := h'.job v hv'
  exact ⟨v', hv'', hc'.trans hc, hw'.trans hw, hk'.trans hk⟩

theorem record {e : Entry} (he : Aside id e) : Holds id s (s.record e) where
  job := fun value hv => ⟨value, hv, rfl, rfl, rfl⟩
  grown := .record he

end Holds

/-- A call that does not touch the slot. -/
theorem Work.sameSlot {closing : Prop} {env : Environment} {value : Job}
    {worked : Job × List Action} (h : Work False closing env value worked) :
    value.SameSlot worked.1 := by
  cases h with
  | select hselects htuning => exact hselects.sameSlot
  | reject => exact ⟨rfl, rfl, rfl⟩
  | begin hslot => exact hslot.elim
  | abandon hslot => exact hslot.elim
  | finish hslot => exact hslot.elim

theorem Updated.holds {s s' : Session} {id i : String} {value : Job} {worked : Job × List Action}
    {new : List Entry} (hu : s.Updated s' i worked new) (hvalue : s.jobs.lookup i = some value)
    (hself : id = i → value.SameSlot worked.1 ∧ BeginsNone worked.2) : Holds id s s' := by
  refine ⟨fun v hv => ?_, new, hu.trace, fun e he => ?_⟩
  · rw [hu.jobs]
    by_cases hi : id = i
    · subst hi
      obtain rfl := Option.some.inj (hvalue.symm.trans hv)
      exact ⟨worked.1, Finmap.lookup_insert _, (hself rfl).1⟩
    · rw [Finmap.lookup_insert_of_ne _ hi]
      exact ⟨v, hv, rfl, rfl, rfl⟩
  · by_cases hi : id = i
    · exact (hself hi).2.aside hu.emits id e he
    · exact aside_of_outside (emits_concerns hu.emits hi e he)

theorem Moves.holds {slot : String → Prop} {s s' : Session} (h : Moves slot s s') {id : String}
    (hid : ¬ slot id) : Holds id s s' := by
  induction h with
  | refl => exact .same rfl rfl
  | tail _ hmove ih =>
      refine ih.trans ?_
      cases hmove with
      | error e => exact .same rfl rfl
      | wake => exact .same rfl rfl
      | read env json hfront hpop =>
          obtain ⟨hjobs, _, _, new, htrace, hnew⟩ := popEvent_spec hpop
          refine ⟨fun v hv => ⟨v, hjobs ▸ hv, rfl, rfl, rfl⟩, new, htrace, fun e he => ?_⟩
          obtain ⟨i, rfl⟩ := hnew e he
          exact aside_of_outside fun hc => hc
      | @work _ env i value worked hvalue hwork hupdate =>
          obtain ⟨new, hu⟩ := update_spec hupdate
          refine hu.holds hvalue fun hi => ?_
          have hno : slot i = False := eq_false (hi ▸ hid)
          rw [hno] at hwork
          exact ⟨hwork.sameSlot, hwork.beginsNone⟩

/-- A new torrent has an identifier that was not in the session. -/
theorem insertJob_holds {s s' : Session} {env : Environment} {i : String}
    {params : AddTorrentParams} {value : Job} (h : s.insertJob env i params value = some s')
    {id : String} (hi : id ≠ i) : Holds id s s' := by
  obtain ⟨hjobs, _, _, _, rest, htrace, hrest⟩ := insertJob_spec h
  refine ⟨fun v hv => ?_, _, htrace, fun e he => ?_⟩
  · rw [hjobs, Finmap.lookup_insert_of_ne _ hi]
    exact ⟨v, hv, rfl, rfl, rfl⟩
  · rcases List.mem_cons.mp he with rfl | he
    · exact aside_of_outside fun hc => hc
    · rcases List.mem_cons.mp he with rfl | he
      · exact aside_of_outside (Ne.symm hi)
      · rw [hrest e he]
        exact aside_of_outside (Ne.symm hi)

theorem remove_holds {s : Session} {i : String} {deleteFiles : Bool} {id : String} (hi : id ≠ i) :
    Holds id s (s.ltkitSessionRemove i deleteFiles).1 := by
  cases hvalue : s.jobs.lookup i with
  | none =>
      simp only [ltkitSessionRemove, hvalue]
      exact .same rfl rfl
  | some value =>
      cases hactive : value.checkpoint.active with
      | true =>
          simp only [ltkitSessionRemove, hvalue, hactive, if_true]
          exact .same rfl rfl
      | false =>
          refine ⟨fun v hv => ⟨v, ?_, rfl, rfl, rfl⟩, ?_⟩
          · rw [remove_jobs hvalue hactive, Finmap.lookup_erase_ne hi]
            exact hv
          · simp only [ltkitSessionRemove, hvalue, hactive, Bool.false_eq_true, if_false]
            split
            · exact .same rfl
            · exact .record (s := s) (e := .command (.removeTorrent value.handle deleteFiles))
                (aside_of_outside fun hc => hc)

end Session

/-! ## No error is swallowed -/

/-- The error alert at `k` has led to an error event before the next alert. -/
def ReportedAtOnce (log : List Entry) (id : String) (k : Nat) : Prop :=
  ∃ j, k < j ∧ At log j (.mail (.submit id .error (recoverableErrorJson id))) ∧
    ∀ u o alert, k < u → u < j → ¬ At log u (.alert o alert)

/-- A checkpoint call that waited at `k` has returned with a native failure. -/
def ReportedToCaller (log : List Entry) (id : String) (k : Nat) : Prop :=
  ∃ c flush timeoutMs output p j, p < k ∧ k < j ∧
    At log p (.called c (.checkpoint id flush timeoutMs)) ∧
    At log j (.returned c (.checkpoint id flush timeoutMs) ⟨.nativeFailure, output⟩) ∧
    ∀ u e, p < u → u < j → At log u e → ¬ CalledBy c e

/-- The completion whose round was the last at `k` has failed, and no round has begun since. -/
def ReportedByCompletion (log : List Entry) (id : String) (k : Nat) : Prop :=
  ∃ h flush failure b j, b < k ∧ k < j ∧ At log b (.began id h flush true) ∧
    At log j (.mail (.submit id .error (completionFailedJson id failure))) ∧
    ∀ u e, b < u → u < j → At log u e → ¬ IsBegan id e

/-- The torrent was removed after `k`. -/
def RemovedAfter (log : List Entry) (id : String) (k : Nat) : Prop :=
  ∃ c deleteFiles j, k < j ∧ At log j (.returned c (.remove id deleteFiles) ⟨.ok, .none⟩)

/-- The error at `k` was reported, or its torrent removed. -/
def Settled (log : List Entry) (id : String) (k : Nat) : Prop :=
  ReportedAtOnce log id k ∨ ReportedToCaller log id k ∨ ReportedByCompletion log id k ∨
    RemovedAfter log id k

theorem Settled.append {log : List Entry} {id : String} {k : Nat} (h : Settled log id k)
    (new : List Entry) : Settled (log ++ new) id k := by
  -- what lies before an entry of the old part is in the old part
  have hold : ∀ {u j e x}, At log j x → u < j → At (log ++ new) u e → At log u e := by
    intro u j e x hj hu he
    rcases at_append.mp he with he | ⟨hle, _⟩
    · exact he
    · have := hj.lt
      omega
  rcases h with ⟨j, hk, hj, hquiet⟩ | ⟨c, f, t, o, p, j, hp, hk, hcalled, hj, hquiet⟩ |
    ⟨h, f, failure, b, j, hb, hk, hbegan, hj, hquiet⟩ | ⟨c, d, j, hk, hj⟩
  · exact Or.inl ⟨j, hk, hj.append new, fun u o a hu hu' he => hquiet u o a hu hu' (hold hj hu' he)⟩
  · exact Or.inr (Or.inl ⟨c, f, t, o, p, j, hp, hk, hcalled.append new, hj.append new,
      fun u e hu hu' he => hquiet u e hu hu' (hold hj hu' he)⟩)
  · exact Or.inr (Or.inr (Or.inl ⟨h, f, failure, b, j, hb, hk, hbegan.append new, hj.append new,
      fun u e hu hu' he => hquiet u e hu hu' (hold hj hu' he)⟩))
  · exact Or.inr (Or.inr (Or.inr ⟨c, d, j, hk, hj.append new⟩))

/-- An entry that may settle an error. -/
def Entry.settles : Entry → Bool
  | .mail (.submit _ .error _) => true
  | .returned _ (.remove _ _) _ => true
  | .returned _ _ response => decide (response.code = .nativeFailure)
  | _ => false

theorem Settled.exists_settles {log : List Entry} {id : String} {k : Nat} (h : Settled log id k) :
    ∃ e ∈ log, e.settles = true := by
  rcases h with ⟨j, _, hj, _⟩ | ⟨_, _, _, _, _, j, _, _, _, hj, _⟩ |
    ⟨_, _, _, _, j, _, _, _, hj, _⟩ | ⟨_, _, j, _, hj⟩
  · exact ⟨_, hj.mem, rfl⟩
  · exact ⟨_, hj.mem, rfl⟩
  · exact ⟨_, hj.mem, rfl⟩
  · exact ⟨_, hj.mem, rfl⟩

namespace World

/-- Thread `c` waits in a checkpoint of `id` that it called for at `p`. -/
structure WaitsSince (w : World) (c : CallId) (id : String) (flush : Bool) (timeoutMs : Int)
    (p : Nat) : Prop where
  waits : ∃ g, w.calls c = some ⟨.checkpoint id flush timeoutMs, g⟩
  called : At w.session.trace p (.called c (.checkpoint id flush timeoutMs))
  own : NoneAfter (CalledBy c) w.session.trace p

/-- The last round of `id` began at `b`, for its completion, which is still under way. -/
structure CompletesSince (w : World) (id : String) (value : Job) (b : Nat) : Prop where
  underWay : value.completionCheckpoint = true
  began : ∃ h flush, At w.session.trace b (.began id h flush true)
  latest : NoneAfter (IsBegan id) w.session.trace b

/-- The slot of `id` holds an error, and the caller or the completion that it is held for was
    there at `k`. -/
def OnRecord (w : World) (id : String) (k : Nat) : Prop :=
  ∃ value, w.session.jobs.lookup id = some value ∧ value.checkpoint.error = .nativeFailure ∧
    ((∃ c flush timeoutMs p, p < k ∧ w.WaitsSince c id flush timeoutMs p) ∨
      ∃ b, b < k ∧ w.CompletesSince id value b)

/-- Every error alert that was handed to a torrent has been reported, or the torrent was
    removed, or the error is on record for somebody who was there when it came. -/
def NoErrorSwallowed (w : World) : Prop :=
  ∀ k id e, At w.session.trace k e → IsErrorFor id e →
    Settled w.session.trace id k ∨ w.OnRecord id k

/-- The step loses an error: it hands an error to a torrent whose slot is held by an abandoned
    request, or a caller gives up a round in which an error has come. -/
def swallows (w : World) : Step → Bool
  | .alert env alert =>
      alert.kind.isError && (w.session.routed env alert).any fun (_, value) =>
        value.checkpoint.barrier.pending && !value.checkpoint.active && !value.completionCheckpoint
  | .resume _ c =>
      match w.calls c with
      | some ⟨.checkpoint id _ _, generation⟩ =>
          (watch id w.session.trace).noted &&
            (!w.session.checkpointWoken id generation ||
              decide (w.session.wakeGeneration ≠ generation))
      | _ => false
  | _ => false

/-- An error is on record, and the trace remembers that it has come in the last round. -/
def Owed (w : World) (id : String) (k : Nat) : Prop :=
  w.OnRecord id k ∧ (watch id w.session.trace).noted = true

/-- A step that leaves the error on record, and the owner of the slot in place. -/
theorem Owed.carry {w w' : World} {id : String} {k : Nat} (h : w.Owed id k) {new : List Entry}
    (hjob : ∀ value, w.session.jobs.lookup id = some value →
      value.checkpoint.error = .nativeFailure → ∃ value', w'.session.jobs.lookup id = some value' ∧
        value'.checkpoint.error = .nativeFailure ∧
        value'.completionCheckpoint = value.completionCheckpoint)
    (hcalls : ∀ c flush timeoutMs g, w.calls c = some ⟨.checkpoint id flush timeoutMs, g⟩ →
      w'.calls c = some ⟨.checkpoint id flush timeoutMs, g⟩)
    (htrace : w'.session.trace = w.session.trace ++ new) (haside : ∀ e ∈ new, Aside id e)
    (hcalled : ∀ c, (w.calls c).isSome → ∀ e ∈ new, ¬ CalledBy c e) : w'.Owed id k := by
  obtain ⟨⟨value, hvalue, herror, howner⟩, hnoted⟩ := h
  obtain ⟨value', hvalue', herror', hcompletion⟩ := hjob value hvalue herror
  refine ⟨⟨value', hvalue', herror', ?_⟩, by rw [htrace]; exact noted_append hnoted haside⟩
  rcases howner with ⟨c, flush, timeoutMs, p, hp, hwaits⟩ | ⟨b, hb, hcompletes⟩
  · obtain ⟨g, hg⟩ := hwaits.waits
    refine Or.inl ⟨c, flush, timeoutMs, p, hp, ⟨g, hcalls _ _ _ _ hg⟩, ?_, ?_⟩ <;> rw [htrace]
    · exact hwaits.called.append new
    · exact hwaits.own.append (hcalled c (by simp [hg]))
  · obtain ⟨handle, flush, hbegan⟩ := hcompletes.began
    refine Or.inr ⟨b, hb, hcompletion.trans hcompletes.underWay, ⟨handle, flush, ?_⟩, ?_⟩ <;>
      rw [htrace]
    · exact hbegan.append new
    · exact hcompletes.latest.append fun e he => (haside e he).1

theorem WaitsSince.active {w : World} {c : CallId} {id : String} {flush : Bool} {timeoutMs : Int}
    {p : Nat} (h : w.WaitsSince c id flush timeoutMs p) (hc : w.Callers) {value : Job}
    (hvalue : w.session.jobs.lookup id = some value) : value.checkpoint.active = true := by
  obtain ⟨g, hg⟩ := h.waits
  exact (activeAt_eq hvalue).symm.trans ((hc.active id).mpr ⟨c, _, hg, _, _, rfl⟩)

/-- The slot of an error on record has an owner. -/
theorem OnRecord.owned {w : World} {id : String} {k : Nat} (h : w.OnRecord id k) (hc : w.Callers) :
    ∃ value, w.session.jobs.lookup id = some value ∧ value.checkpoint.error = .nativeFailure ∧
      (value.checkpoint.active = true ∨ value.completionCheckpoint = true) := by
  obtain ⟨value, hvalue, herror, howner⟩ := h
  refine ⟨value, hvalue, herror, ?_⟩
  rcases howner with ⟨c, flush, timeoutMs, p, _, hwaits⟩ | ⟨b, _, hcompletes⟩
  · exact Or.inl (hwaits.active hc hvalue)
  · exact Or.inr hcompletes.underWay

/-- A step that leaves the slot alone leaves the error on record. -/
theorem Owed.holds {w : World} {id : String} {k : Nat} (h : w.Owed id k) {s' : Session}
    {calls' : CallId → Option Wait} (hholds : Holds id w.session s')
    (hcalls : ∀ c flush timeoutMs g, w.calls c = some ⟨.checkpoint id flush timeoutMs, g⟩ →
      calls' c = some ⟨.checkpoint id flush timeoutMs, g⟩)
    (hcalled : ∀ new, s'.trace = w.session.trace ++ new →
      ∀ c, (w.calls c).isSome → ∀ e ∈ new, ¬ CalledBy c e) : Owed ⟨s', calls'⟩ id k := by
  obtain ⟨new, htrace, haside⟩ := hholds.grown
  refine h.carry (fun value hv he => ?_) hcalls htrace haside (hcalled new htrace)
  obtain ⟨v, hv', hc, _, hk⟩ := hholds.job value hv
  exact ⟨v, hv', hk ▸ he, hc⟩

theorem alert_owed {w : World} {env : Environment} {alert : Alert} {s' : Session} {id : String}
    {k : Nat} (h : w.Owed id k) (hs : w.session.Slots) (hc : w.Callers)
    (hk : k < w.session.trace.length) (hh : w.session.handleAlert env alert = some s') :
    Settled s'.trace id k ∨ Owed ⟨s', w.calls⟩ id k := by
  have halert : ∀ o, Aside id (.alert o alert) ∧ ∀ c, ¬ CalledBy c (.alert o alert) := fun o =>
    ⟨⟨not_began_alert, by simp⟩, (by rintro c ⟨_, heq⟩; cases heq)⟩
  rcases handleAlert_cases hh with rfl | ⟨i, value, hvalue, _, _, hupdate⟩
  · refine Or.inr (h.holds (.record (halert none).1) (fun _ _ _ _ h => h) ?_)
    intro new htrace c _ e he
    obtain rfl : [.alert none alert] = new := List.append_cancel_left htrace
    obtain rfl := List.mem_singleton.mp he
    exact (halert none).2 c
  · obtain ⟨new, hu⟩ := update_spec hupdate
    have htrace : s'.trace = w.session.trace ++ .alert (some i) alert :: new := by
      rw [hu.trace]
      simp
    have hcalled : ∀ c, (w.calls c).isSome → ∀ e ∈ .alert (some i) alert :: new, ¬ CalledBy c e := by
      intro c _ e he
      rcases List.mem_cons.mp he with rfl | he
      · exact (halert _).2 c
      · exact emits_not_called hu.emits c e he
    have haside : (∀ e ∈ new, Aside id e) → ∀ e ∈ .alert (some i) alert :: new, Aside id e := by
      intro hnew e he
      rcases List.mem_cons.mp he with rfl | he
      · exact (halert _).1
      · exact hnew e he
    by_cases hi : id = i
    · subst hi
      obtain ⟨v, hv, herror, howned⟩ := h.1.owned hc
      obtain rfl := Option.some.inj (hvalue.symm.trans hv)
      rcases (onAlert_end env id value alert).keepsError herror howned with
        ⟨hkept, hcompletion, hnone⟩ | ⟨hcompletion, hnone, hfailed⟩
      · refine Or.inr (h.carry (fun v hv' _ => ?_) (fun _ _ _ _ h => h) htrace
          (haside (hnone.aside hu.emits id)) hcalled)
        obtain rfl := Option.some.inj (hvalue.symm.trans hv')
        exact ⟨_, by rw [hu.jobs, Finmap.lookup_insert], hkept, hcompletion⟩
      · -- the completion that owns the slot fails
        obtain ⟨⟨v, hv', _, howner⟩, _⟩ := h
        obtain rfl := Option.some.inj (hvalue.symm.trans hv')
        rcases howner with ⟨c, flush, timeoutMs, p, _, hwaits⟩ | ⟨b, hb, hcompletes⟩
        · exact absurd ⟨hwaits.active hc hvalue, hcompletion⟩ (hs id value hvalue).owner
        · obtain ⟨handle, flush, hbegan⟩ := hcompletes.began
          obtain ⟨j, hj⟩ := exists_at_of_mem (emits_of_mem hu.emits hfailed rfl)
          refine Or.inl (Or.inr (Or.inr (Or.inl ⟨handle, flush, .checkpoint, b,
            w.session.trace.length + (j + 1), hb, by omega, ?_, ?_, ?_⟩)))
          · rw [htrace]
            exact hbegan.append _
          · rw [htrace]
            exact at_append_length hj
          · intro u e hu' _ he
            rw [htrace] at he
            exact hcompletes.latest.append
              (fun e he => (haside (hnone.aside hu.emits id) e he).1) u e hu' he
    · refine Or.inr (h.carry (fun v hv he => ⟨v, ?_, he, rfl⟩) (fun _ _ _ _ h => h) htrace
        (haside fun e he => aside_of_outside (emits_concerns hu.emits hi e he)) hcalled)
      rw [hu.jobs, Finmap.lookup_insert_of_ne _ hi]
      exact hv

theorem remove_ok {s : Session} {id : String} {value : Job} (deleteFiles : Bool)
    (hvalue : s.jobs.lookup id = some value) (hactive : value.checkpoint.active = false) :
    (s.ltkitSessionRemove id deleteFiles).2 = ⟨.ok, .none⟩ := by
  simp only [ltkitSessionRemove, hvalue, hactive, Bool.false_eq_true, if_false]

theorem call_owed {w w' : World} {env : Environment} {c : CallId} {api : Api} {id : String}
    {k : Nat} (h : w.Owed id k) (hc : w.Callers) (hk : k < w.session.trace.length)
    (hstep : w.step (.call env c api) = some w') : Settled w'.session.trace id k ∨ w'.Owed id k := by
  simp only [step, Option.ite_none_left_eq_some, Option.map_eq_some_iff, Bool.or_eq_true,
    not_or, Bool.not_eq_true, Option.isSome_eq_false_iff, Option.isNone_iff_eq_none] at hstep
  obtain ⟨⟨hfree, _⟩, res, hres, rfl⟩ := hstep
  obtain ⟨value, hvalue, herror, howned⟩ := h.1.owned hc
  have hentered : Aside id (.called c api) := aside_of_outside fun hc => hc
  by_cases hremove : ∃ deleteFiles, api = .remove id deleteFiles ∧ value.checkpoint.active = false
  · -- the torrent is removed, and its error with it
    obtain ⟨deleteFiles, rfl, hactive⟩ := hremove
    have hvalue' : (w.session.record (.called c (.remove id deleteFiles))).jobs.lookup id =
        some value := hvalue
    obtain rfl := Option.some.inj hres
    refine Or.inl (Or.inr (Or.inr (Or.inr ⟨c, deleteFiles,
      ((w.session.record (.called c (.remove id deleteFiles))).ltkitSessionRemove id
        deleteFiles).1.trace.length, ?_, ?_⟩)))
    · obtain ⟨new, htrace, _⟩ := (Life.remove id value deleteFiles hvalue' hactive).fromCall
      rw [htrace, record_trace, List.length_append, List.length_append]
      omega
    · have hok := remove_ok deleteFiles hvalue' hactive
      simp only [returning, returned, record_trace, hok]
      exact at_concat
  · -- everything else leaves the slot alone
    have hbody : Holds id (w.session.record (.called c api)) res.1 := by
      by_cases hcheckpoint : IsCheckpoint api id
      · obtain ⟨flush, timeoutMs, rfl⟩ := hcheckpoint
        have hbusy := @checkpoint_busy (w.session.record _) _ _ _ _ _ _ hvalue howned hres
        exact .same hbusy.1 hbusy.2
      · cases api with
        | add r =>
            obtain ⟨r', hr, rfl⟩ := Option.map_eq_some_iff.mp hres
            rcases add_inserts hr with
              ⟨code, m, _, rfl⟩ | ⟨params, desired, handle, _, hnew, _, _, hinsert, _⟩
            · exact .same rfl rfl
            · refine insertJob_holds hinsert ?_
              rintro rfl
              exact hnew (Finmap.mem_of_lookup_eq_some hvalue)
        | remove i deleteFiles =>
            obtain rfl := Option.some.inj hres
            by_cases hi : id = i
            · subst hi
              have hactive : value.checkpoint.active = true := by
                by_contra ha
                exact hremove ⟨deleteFiles, rfl, by simpa using ha⟩
              refine .same ?_ ?_ <;> simp [returning, ltkitSessionRemove, hvalue, hactive, fail]
            · exact remove_holds hi
        | _ => exact (enter_moves_inside (IsCheckpoint _) (by simp) (by simp) (fun _ h => h)
            hres).holds hcheckpoint
    obtain ⟨new, htrace, hnew⟩ := enter_fromCall hres
    have hcalls : ∀ o d flush timeoutMs g, w.calls d = some ⟨.checkpoint id flush timeoutMs, g⟩ →
        Function.update w.calls c o d = some ⟨.checkpoint id flush timeoutMs, g⟩ := by
      intro o d flush timeoutMs g hd
      have hne : d ≠ c := by
        rintro rfl
        simp [hfree] at hd
      rw [Function.update_of_ne hne, hd]
    have hnot : ∀ d, (w.calls d).isSome → ∀ e ∈ .called c api :: new, ¬ CalledBy d e := by
      rintro d hd e he ⟨a, rfl⟩
      rcases List.mem_cons.mp he with heq | he
      · obtain rfl : d = c := by cases heq; rfl
        simp [hfree] at hd
      · cases hnew _ he
    have hentry : Holds id w.session res.1 := (Holds.record hentered).trans hbody
    have htrace' : res.1.trace = w.session.trace ++ .called c api :: new := by
      rw [htrace, record_trace, ← List.append_cons]
    refine Or.inr ?_
    cases hr : res.2 with
    | none =>
        refine h.holds hentry (hcalls _) fun new' hnew' => ?_
        obtain rfl := List.append_cancel_left (htrace'.symm.trans hnew')
        exact hnot
    | some response =>
        refine h.holds (hentry.trans (.record (aside_of_outside fun hc => hc))) (hcalls none)
          fun new' hnew' d hd e he => ?_
        rw [record_trace, htrace', List.append_assoc] at hnew'
        obtain rfl := List.append_cancel_left hnew'
        rcases List.mem_append.mp he with he | he
        · exact hnot d hd e he
        · obtain rfl := List.mem_singleton.mp he
          rintro ⟨_, heq⟩
          cases heq

/-- A caller that finds an error on record, and does not give up, returns it. -/
theorem resumeCheckpoint_error {s : Session} {env : Environment} {id : String} {g : Nat}
    {res : Session × Response} {value : Job} (hvalue : s.jobs.lookup id = some value)
    (herror : value.checkpoint.error ≠ .ok) (hwoken : s.checkpointWoken id g = true)
    (hgeneration : s.wakeGeneration = g) (h : s.resumeCheckpoint env id g = some res) :
    res.2 = ⟨value.checkpoint.error, .none⟩ := by
  unfold resumeCheckpoint at h
  simp only [hvalue, hwoken, hgeneration, herror, Bool.not_true, ne_eq, not_true_eq_false,
    decide_false, Bool.or_self, Bool.false_eq_true, if_false, not_false_eq_true, if_true] at h
  obtain ⟨t, _, rfl⟩ := Option.map_eq_some_iff.mp h
  rfl

theorem resume_owed {w w' : World} {env : Environment} {c : CallId} {id : String} {k : Nat}
    (h : w.Owed id k) (hs : w.session.Slots) (hc : w.Callers) (hk : k < w.session.trace.length)
    (hclean : w.swallows (.resume env c) = false) (hstep : w.step (.resume env c) = some w') :
    Settled w'.session.trace id k ∨ w'.Owed id k := by
  obtain ⟨wait, res, hwait, hres, rfl⟩ := step_resume hstep
  have hm : ∀ slot : String → Prop, (∀ i, IsCheckpoint wait.api i → slot i) →
      Moves slot w.session res.1 := fun slot hslot =>
    resume_moves slot (fun i hck => ⟨hslot i hck, (hc.active i).mpr ⟨c, wait, hwait, hck⟩⟩) hres
  obtain ⟨new, htrace, hnew⟩ := (hm (fun _ => True) fun _ _ => trivial).fromCall
  have hnot : ∀ d, ∀ e ∈ new ++ [.returned c wait.api res.2], ¬ CalledBy d e := by
    rintro d e he ⟨a, rfl⟩
    rcases List.mem_append.mp he with he | he
    · cases hnew _ he
    · cases List.mem_singleton.mp he
  by_cases hcheckpoint : IsCheckpoint wait.api id
  · -- the caller that the error is on record for
    obtain ⟨⟨value, hvalue, herror, howner⟩, hnoted⟩ := h
    have hactive : value.checkpoint.active = true :=
      (activeAt_eq hvalue).symm.trans ((hc.active id).mpr ⟨c, wait, hwait, hcheckpoint⟩)
    rcases howner with ⟨d, flush, timeoutMs, p, hp, hwaits⟩ | ⟨b, _, hcompletes⟩
    · obtain ⟨g, hg⟩ := hwaits.waits
      obtain rfl := hc.unique id c d ⟨wait, hwait, hcheckpoint⟩ ⟨_, hg, _, _, rfl⟩
      obtain rfl := Option.some.inj (hwait.symm.trans hg)
      simp only [swallows, hg, hnoted, Bool.true_and, Bool.or_eq_false_iff, Bool.not_eq_false',
        decide_eq_false_iff_not, ne_eq, not_not] at hclean
      have hcode := resumeCheckpoint_error hvalue (by simp [herror]) hclean.1 hclean.2 hres
      refine Or.inl (Or.inr (Or.inl ⟨c, flush, timeoutMs, .none, p, res.1.trace.length, hp, ?_,
        ?_, ?_, ?_⟩))
      · rw [htrace, List.length_append]
        omega
      · show At (res.1.trace ++ _) p _
        rw [htrace]
        exact (hwaits.called.append new).append _
      · show At (res.1.trace ++ _) _ _
        rw [hcode, herror]
        exact at_concat
      · intro u e hu _ he
        have he' : At (w.session.trace ++ (new ++ [.returned c (.checkpoint id flush timeoutMs)
            res.2])) u e := by
          rw [← List.append_assoc, ← htrace]
          exact he
        exact hwaits.own.append (hnot c) u e hu he'
    · exact absurd ⟨hactive, hcompletes.underWay⟩ (hs id value hvalue).owner
  · have hholds := ((hm _ fun _ h => h).holds hcheckpoint).trans
      (Holds.record (e := .returned c wait.api res.2) (aside_of_outside fun hc => hc))
    refine Or.inr (h.holds hholds (fun d flush timeoutMs g hd => ?_) fun new' hnew' d _ => ?_)
    · have hne : d ≠ c := by
        rintro rfl
        obtain rfl := Option.some.inj (hwait.symm.trans hd)
        exact hcheckpoint ⟨_, _, rfl⟩
      rw [Function.update_of_ne hne, hd]
    · rw [record_trace, htrace, List.append_assoc] at hnew'
      obtain rfl := List.append_cancel_left hnew'
      exact hnot d

/-- **One step.** A step that swallows nothing leaves an error on record, or settles it. -/
theorem step_owed {w w' : World} {l : Step} {id : String} {k : Nat} (h : w.Owed id k)
    (hs : w.session.Slots) (hc : w.Callers) (hk : k < w.session.trace.length)
    (hclean : w.swallows l = false) (hstep : w.step l = some w') :
    Settled w'.session.trace id k ∨ w'.Owed id k := by
  cases l with
  | alert env alert =>
      simp only [step, Option.ite_none_left_eq_some, Option.map_eq_some_iff] at hstep
      obtain ⟨_, s, hh, rfl⟩ := hstep
      exact alert_owed h hs hc hk hh
  | destroy =>
      obtain rfl := Option.some.inj hstep
      refine Or.inr (h.holds (.same rfl rfl) (fun _ _ _ _ h => h) fun new htrace c _ e he => ?_)
      obtain rfl : new = [] := by simpa using htrace
      cases he
  | call env c api => exact call_owed h hc hk hstep
  | resume env c => exact resume_owed h hs hc hk hclean hstep

theorem onAlert_error {env : Environment} {id : String} {value : Job} {alert : Alert}
    (h : alert.kind.isError = true) : onAlert env id value alert =
      if value.checkpoint.barrier.pending then
        ({ value with checkpoint := { value.checkpoint with error := .nativeFailure } }, [])
      else (value, [.enqueue .error (recoverableErrorJson id)]) := by
  unfold onAlert
  cases hkind : alert.kind <;> simp only [hkind, AlertKind.isError, reduceCtorEq] at h <;> rfl

theorem emits_not_alert {id : String} {actions : List Action} {new : List Entry}
    (h : Emits id actions new) (o : Option String) (alert : Alert) : .alert o alert ∉ new := by
  intro he
  rcases emits_mem h he with ⟨a, _, hae⟩ | ⟨_, _, heq⟩
  · cases a <;> simp [actionEntry] at hae
  · cases heq

/-- The owner of a round that waits is there before the next entry of the trace. -/
theorem owner_of_run {ls : List Step} {w : World} (hrun : Lts.exec step {} ls = some w)
    {id : String} {value : Job} (hvalue : w.session.jobs.lookup id = some value)
    (hpending : value.checkpoint.barrier.pending = true)
    (howned : value.checkpoint.active = true ∨ value.completionCheckpoint = true) :
    (∃ c flush timeoutMs p, p < w.session.trace.length ∧ w.WaitsSince c id flush timeoutMs p) ∨
      ∃ b, b < w.session.trace.length ∧ w.CompletesSince id value b := by
  obtain ⟨_, hc⟩ := run_callers hrun
  rcases howned with hactive | hcompletion
  · obtain ⟨c, ⟨api, g⟩, hwait, flush, timeoutMs, rfl⟩ :=
      (hc.active id).mp ((activeAt_eq hvalue).trans hactive)
    obtain ⟨_, p, _, hown⟩ := owners_of_run hrun c id flush timeoutMs g hwait
    exact Or.inl ⟨c, flush, timeoutMs, p, hown.called.lt, ⟨g, hwait⟩, hown.called, hown.own⟩
  · have hrounds : Rounds False w.session := rounds_of_run hrun fun hf => hf.elim
    have hround := hrounds.round id value hvalue
    have hbegan : ∃ flush b, Began w.session.trace id value.handle flush
        value.completionCheckpoint b := by
      rcases DiskCheckpoint.pending_iff.mp hpending with hphase | hphase
      · obtain ⟨b, hb⟩ := hround.flushing hphase
        exact ⟨true, b, hb.round⟩
      · obtain ⟨flush, b, _, hb⟩ := hround.saving hphase
        exact ⟨flush, b, hb.round⟩
    obtain ⟨flush, b, hb⟩ := hbegan
    rw [hcompletion] at hb
    exact Or.inr ⟨b, hb.began.lt, hcompletion, ⟨_, flush, hb.began⟩, hb.latest⟩

/-- An error that comes is reported at once, or put on record for the owner of the slot. -/
theorem step_error {ls : List Step} {w w' : World} (hrun : Lts.exec step {} ls = some w) {l : Step}
    (hclean : w.swallows l = false) (hstep : w.step l = some w') {k : Nat} {id : String} {e : Entry}
    (hk : w.session.trace.length ≤ k) (hat : At w'.session.trace k e) (he : IsErrorFor id e) :
    Settled w'.session.trace id k ∨ w'.Owed id k := by
  obtain ⟨hs, hc⟩ := run_callers hrun
  obtain ⟨a, rfl, herror⟩ := he
  have hold : ¬ At w.session.trace k (.alert (some id) a) := fun hold => by
    have := hold.lt
    omega
  rcases step_fromCall hc hstep with ⟨env, alert, rfl⟩ | ⟨new, htrace, hnew⟩
  · simp only [step, Option.ite_none_left_eq_some, Option.map_eq_some_iff] at hstep
    obtain ⟨_, s, hh, rfl⟩ := hstep
    unfold handleAlert at hh
    split at hh
    · obtain rfl := Option.some.inj hh
      rcases at_append.mp hat with hat | ⟨_, hat⟩
      · exact absurd hat hold
      · cases List.mem_singleton.mp hat.mem
    · next i value hrouted =>
        obtain ⟨hvalue, _, _⟩ := routed_spec hrouted
        obtain ⟨new, hu⟩ := update_spec hh
        have htrace : s.trace = w.session.trace ++ .alert (some i) alert :: new := by
          rw [hu.trace]
          simp
        -- the error is the alert that has just been handed over
        have hnow : k = w.session.trace.length ∧ i = id ∧ alert = a := by
          have hat' : At (w.session.trace ++ .alert (some i) alert :: new) k (.alert (some id) a) := by
            rw [← htrace]
            exact hat
          rcases at_append.mp hat' with hat' | ⟨hle, hat'⟩
          · exact absurd hat' hold
          · rcases Nat.eq_zero_or_pos (k - w.session.trace.length) with hzero | hpos
            · rw [hzero] at hat'
              have heq : Entry.alert (some i) alert = .alert (some id) a := Option.some.inj hat'
              simp only [Entry.alert.injEq, Option.some.injEq] at heq
              exact ⟨by omega, heq⟩
            · refine absurd ?_ (emits_not_alert hu.emits (some id) a)
              obtain ⟨n, hn⟩ := Nat.exists_eq_succ_of_ne_zero (Nat.pos_iff_ne_zero.mp hpos)
              rw [hn] at hat'
              exact List.mem_of_getElem? hat'
        obtain ⟨rfl, rfl, rfl⟩ := hnow
        have hemits := hu.emits
        have hjobs := hu.jobs
        rw [onAlert_error herror] at hemits hjobs
        cases hpending : value.checkpoint.barrier.pending with
        | false =>
            simp only [hpending, Bool.false_eq_true, if_false] at hemits
            obtain ⟨j, hj⟩ := exists_at_of_mem (emits_of_mem hemits List.mem_cons_self rfl)
            refine Or.inl (Or.inl ⟨w.session.trace.length + (j + 1), by omega, ?_, ?_⟩)
            · show At s.trace _ _
              rw [htrace]
              exact at_append_length hj
            · intro u o x hu' _ he
              have he' : At (w.session.trace ++ .alert (some i) alert :: new) u (.alert o x) := by
                rw [← htrace]
                exact he
              rcases at_append.mp he' with he' | ⟨_, he'⟩
              · have := he'.lt
                omega
              · obtain ⟨n, hn⟩ := Nat.exists_eq_succ_of_ne_zero
                  (Nat.sub_ne_zero_of_lt hu')
                rw [hn] at he'
                exact emits_not_alert hemits o x (List.mem_of_getElem? he')
        | true =>
            simp only [hpending, if_true] at hemits hjobs
            obtain rfl : new = [] := hemits
            have howned : value.checkpoint.active = true ∨ value.completionCheckpoint = true := by
              by_contra hno
              simp only [not_or, Bool.not_eq_true] at hno
              simp [swallows, herror, hrouted, hpending, hno.1, hno.2] at hclean
            have hwatch := watchOk_invariant.of_run hrun i value hvalue hpending
            refine Or.inr ⟨⟨_, by rw [hjobs, Finmap.lookup_insert], rfl, ?_⟩, ?_⟩
            · have hlast : ∀ {p : Entry → Prop} {t}, ¬ p (.alert (some i) alert) →
                  NoneAfter p w.session.trace t → NoneAfter p s.trace t := by
                intro p t hp hq
                rw [htrace]
                exact hq.append fun e he => List.mem_singleton.mp he ▸ hp
              rcases owner_of_run hrun hvalue hpending howned with
                ⟨c, flush, timeoutMs, p, hp, hwaits⟩ | ⟨b, hb, hcompletes⟩
              · refine Or.inl ⟨c, flush, timeoutMs, p, hp, hwaits.waits, ?_, hlast ?_ hwaits.own⟩
                · show At s.trace _ _
                  rw [htrace]
                  exact hwaits.called.append _
                · rintro ⟨_, heq⟩
                  cases heq
              · obtain ⟨handle, flush, hbegan⟩ := hcompletes.began
                refine Or.inr ⟨b, hb, hcompletes.underWay, ⟨handle, flush, ?_⟩,
                  hlast not_began_alert hcompletes.latest⟩
                show At s.trace _ _
                rw [htrace]
                exact hbegan.append _
            · show (watch i s.trace).noted = true
              rw [htrace, watch_append]
              simp [Watch.next, herror, hwatch]
  · rw [htrace] at hat
    rcases at_append.mp hat with hat | ⟨_, hat⟩
    · exact absurd hat hold
    · rcases hnew _ hat.mem with hcall | hfrom
      · cases hcall
      · cases hfrom

/-- **No engine error is swallowed, and when that holds.** In every state of every run that
    takes no step that swallows an error, each error alert that was handed to a torrent has been
    reported as an error event, as the failure of a checkpoint call that waited when it came, or
    as the failure of the completion that was under way; or the torrent was removed; or the
    error is on record for that caller or that completion, which are still there. -/
theorem errors_not_swallowed {ls : List Step}
    (hclean : Lts.EachStep step (fun w l => w.swallows l = false) {} ls) :
    Lts.EachState step NoErrorSwallowed {} ls := by
  have howed : ∀ (ls : List Step) (w : World),
      Lts.EachStep step (fun w l => w.swallows l = false) {} ls → Lts.exec step {} ls = some w →
      ∀ k id e, At w.session.trace k e → IsErrorFor id e →
        Settled w.session.trace id k ∨ w.Owed id k := by
    intro ls
    induction ls using List.reverseRecOn with
    | nil =>
        intro w _ hrun k id e hat
        obtain rfl : ({} : World) = w := Option.some.inj hrun
        cases hat.mem
    | append_singleton ls l ih =>
        intro w hclean hrun k id e hat he
        obtain ⟨v, hv, hstep⟩ := Lts.exec_snoc_eq_some.mp hrun
        have hl : v.swallows l = false := hclean.last hv
        obtain ⟨hs, hc⟩ := run_callers hv
        by_cases hk : k < v.session.trace.length
        · obtain ⟨new, htrace⟩ := (step_grows hc hstep).trace
          have hbefore : At v.session.trace k e := by
            rw [← htrace] at hat
            rcases at_append.mp hat with hat | ⟨hle, _⟩
            · exact hat
            · omega
          rcases ih v hclean.init hv k id e hbefore he with hsettled | howed
          · rw [← htrace]
            exact Or.inl (hsettled.append new)
          · exact step_owed howed hs hc hk hl hstep
        · exact step_error hv hl hstep (Nat.le_of_not_lt hk) hat he
  intro pre w hpre hrun k id e hat he
  exact (howed pre w (hclean.initial hpre) hrun k id e hat he).imp_right And.left

/-- A file error comes while a checkpoint call waits. -/
def reportedRun : List Step :=
  [.call sampleEnvironment 0 (.add sampleRequest),
    .call sampleEnvironment 1 (.checkpoint "a" true 1000),
    .alert sampleEnvironment ⟨1, .fileError⟩,
    .alert sampleEnvironment ⟨1, .cacheFlushed 7⟩,
    .alert sampleEnvironment ⟨1, .saveResumeData 11 [1, 2]⟩,
    .resume sampleEnvironment 1]

/-- The call fails. -/
theorem reportedRun_reports :
    (after reportedRun).session.trace.getLast? =
      some (.returned 1 (.checkpoint "a" true 1000) ⟨.nativeFailure, .none⟩) ∧
      Lts.EachState step NoErrorSwallowed {} reportedRun := by
  have hcheck : Lts.checkEachStep step (fun w l => !w.swallows l) {} reportedRun = true := by
    decide +kernel
  refine ⟨by decide +kernel, errors_not_swallowed ?_⟩
  exact (Lts.eachStep_of_check hcheck).mono fun w l h => by simpa using h

/-- A checkpoint call times out, and a file error comes before the replies to its request. -/
def abandonedRun : List Step :=
  [.call sampleEnvironment 0 (.add sampleRequest),
    .call sampleEnvironment 1 (.checkpoint "a" true 1000),
    .resume sampleEnvironment 1,
    .alert sampleEnvironment ⟨1, .fileError⟩,
    .alert sampleEnvironment ⟨1, .cacheFlushed 7⟩,
    .alert sampleEnvironment ⟨1, .saveResumeData 12 [1, 2]⟩]

/-- Nobody learns of the error. -/
theorem abandonedRun_swallows :
    Lts.exec step {} abandonedRun = some (after abandonedRun) ∧
      ¬ Lts.EachState step NoErrorSwallowed {} abandonedRun := by
  have hexec : Lts.exec step {} abandonedRun = some (after abandonedRun) :=
    exec_after (by decide +kernel)
  refine ⟨hexec, fun h => ?_⟩
  have hnone : ((after abandonedRun).session.trace.any fun e => e.settles) = false := by
    decide +kernel
  have hfree : ((after abandonedRun).session.jobs.lookup "a").all (fun value =>
      decide (value.checkpoint.error = .ok)) = true := by decide +kernel
  have hat : At (after abandonedRun).session.trace 9 (.alert (some "a") ⟨1, .fileError⟩) := by
    show _ = _
    decide +kernel
  rcases h abandonedRun _ (List.prefix_refl _) hexec 9 "a" _ hat ⟨_, rfl, rfl⟩ with
    hsettled | ⟨value, hvalue, herror, _⟩
  · obtain ⟨e, he, hsettles⟩ := hsettled.exists_settles
    exact absurd hsettles (List.any_eq_false.mp hnone e he)
  · simp [hvalue, herror] at hfree

end World

end LibtorrentKit
