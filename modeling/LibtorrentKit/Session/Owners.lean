/-
  The round that a waiting caller owns.

  While a call of `ltkit_session_checkpoint` waits, the last round of its torrent is the one
  that it has begun itself, right after it entered (`owners_of_run`). No other call and no alert
  begins a round of a torrent whose slot is taken (`Session.Keeps`).
-/
import LibtorrentKit.Session.CompletionSafety

namespace LibtorrentKit

open History Session

/-- Thread `c` makes a call. -/
def CalledBy (c : CallId) (e : Entry) : Prop := ∃ api, e = .called c api

/-- Thread `c` has called for a checkpoint of `id` at `p`, and its round is the last one. -/
structure OwnRound (log : List Entry) (c : CallId) (id : String) (flush : Bool) (timeoutMs : Int)
    (h : Handle) (p : Nat) : Prop where
  called : At log p (.called c (.checkpoint id flush timeoutMs))
  began : At log (p + 1) (.began id h flush false)
  latest : NoneAfter (IsBegan id) log (p + 1)
  own : NoneAfter (CalledBy c) log p

theorem OwnRound.append {log new : List Entry} {c : CallId} {id : String} {flush : Bool}
    {timeoutMs : Int} {h : Handle} {p : Nat} (ho : OwnRound log c id flush timeoutMs h p)
    (hbegan : ∀ e ∈ new, ¬ IsBegan id e) (hcalled : ∀ e ∈ new, ¬ CalledBy c e) :
    OwnRound (log ++ new) c id flush timeoutMs h p :=
  ⟨ho.called.append new, ho.began.append new, ho.latest.append hbegan, ho.own.append hcalled⟩

/-! ## Slots that are taken -/

/-- The actions begin no round. -/
def BeginsNone (actions : List Action) : Prop :=
  ∀ h flush completion, Action.began h flush completion ∉ actions

theorem Tuning.beginsNone {actions : List Action} (h : Tuning actions) : BeginsNone actions := by
  intro handle flush completion ha
  obtain ⟨_, heq, _⟩ := h _ ha
  cases heq

theorem startWaitingCompletion_of_active {value : Job} (h : value.checkpoint.active = true) :
    startWaitingCompletion value = (value, []) := by
  simp [startWaitingCompletion, h]

/-- A call that does not touch the slot begins no round. -/
theorem Session.Work.beginsNone {closing : Prop} {env : Environment} {value : Job}
    {worked : Job × List Action} (h : Work False closing env value worked) :
    BeginsNone worked.2 := by
  cases h with
  | select hselects htuning => exact htuning.beginsNone
  | reject => simp [BeginsNone]
  | begin hslot => exact hslot.elim
  | abandon hslot => exact hslot.elim
  | finish hslot => exact hslot.elim

theorem FinishEnd.beginsNone {env : Environment} {id : String} {value : Job} {success : Bool}
    {worked : Job × List Action} (h : FinishEnd env id value success worked)
    (howner : ¬ (value.checkpoint.active = true ∧ value.completionCheckpoint = true))
    (hactive : value.checkpoint.active = true) : BeginsNone worked.2 := by
  cases h with
  | completion hcompletion _ => exact absurd ⟨hactive, hcompletion⟩ howner
  | answered _ _ => simp [BeginsNone]
  | drained _ hfree => simp [hactive] at hfree

/-- An alert begins no round of a torrent whose slot a caller has taken. -/
theorem AlertEnd.beginsNone {env : Environment} {id : String} {value : Job} {alert : Alert}
    {worked : Job × List Action} (h : AlertEnd env id value alert worked) (hok : value.SlotOk)
    (hactive : value.checkpoint.active = true) : BeginsNone worked.2 := by
  cases h with
  | metadata hkind hselects htuning =>
      intro handle flush completion ha
      rcases List.mem_append.mp ha with ha | ha
      · exact htuning.beginsNone _ _ _ ha
      · simp at ha
  | rejected hkind hselects htuning =>
      intro handle flush completion ha
      rcases List.mem_append.mp ha with ha | ha
      · exact htuning.beginsNone _ _ _ ha
      · simp at ha
  | completing hkind hcompletes hworked =>
      have hact : ({ value with completionWaiting := true } : Job).checkpoint.active = true :=
        hactive
      rw [startWaitingCompletion_of_active hact] at hworked
      subst hworked
      simp [BeginsNone]
  | @saved request data hkind hphase fin hend =>
      intro handle flush completion ha
      rcases List.mem_cons.mp ha with ha | ha
      · cases ha
      · exact hend.beginsNone hok.owner hactive _ _ _ ha
  | @saveFailed request hkind hphase fin hend =>
      intro handle flush completion ha
      rcases List.mem_cons.mp ha with ha | ha
      · cases ha
      · exact hend.beginsNone hok.owner hactive _ _ _ ha
  | flushed | errorNoted | errorReported | status | ignored => simp [BeginsNone]

theorem BeginsNone.emits {id : String} {actions : List Action} {new : List Entry}
    (h : BeginsNone actions) (hemits : Emits id actions new) (i : String) :
    ∀ e ∈ new, ¬ IsBegan i e := by
  rintro e he ⟨_, _, _, rfl⟩
  rcases emits_mem hemits he with ⟨a, ha, hae⟩ | ⟨_, _, heq⟩
  · cases a <;> simp only [actionEntry, Option.some.injEq, reduceCtorEq] at hae
    exact h _ _ _ ha
  · cases heq

theorem emits_not_called {id : String} {actions : List Action} {new : List Entry}
    (hemits : Emits id actions new) (c : CallId) : ∀ e ∈ new, ¬ CalledBy c e := by
  rintro e he ⟨_, rfl⟩
  rcases emits_mem hemits he with ⟨a, _, hae⟩ | ⟨_, _, heq⟩
  · cases a <;> simp [actionEntry] at hae
  · cases heq

namespace Session

/-- If a caller has taken the slot of `id`, it still has it, no round of `id` has begun since,
    and nobody has made a call. -/
structure Keeps (id : String) (s s' : Session) : Prop where
  job : ∀ value, s.jobs.lookup id = some value → value.checkpoint.active = true →
    ∃ value', s'.jobs.lookup id = some value' ∧ value'.checkpoint.active = true ∧
      value'.handle = value.handle
  grown : s.activeAt id = true → ∃ new, s'.trace = s.trace ++ new ∧
    ∀ e ∈ new, ¬ IsBegan id e ∧ ∀ c, ¬ CalledBy c e

theorem Keeps.same {id : String} {s s' : Session} (hjobs : s'.jobs = s.jobs)
    (htrace : s'.trace = s.trace) : Keeps id s s' where
  job := fun value hv ha => ⟨value, hjobs ▸ hv, ha, rfl⟩
  grown := fun _ => ⟨[], by rw [htrace, List.append_nil], fun e he => by cases he⟩

theorem activeAt_iff {s : Session} {id : String} :
    s.activeAt id = true ↔ ∃ value, s.jobs.lookup id = some value ∧
      value.checkpoint.active = true := by
  simp [activeAt, Option.any_eq_true]

theorem Keeps.trans {id : String} {s t u : Session} (h : Keeps id s t) (h' : Keeps id t u) :
    Keeps id s u := by
  refine ⟨fun value hv ha => ?_, fun hact => ?_⟩
  · obtain ⟨v, hv', ha', hh⟩ := h.job value hv ha
    obtain ⟨v', hv'', ha'', hh'⟩ := h'.job v hv' ha'
    exact ⟨v', hv'', ha'', hh'.trans hh⟩
  · obtain ⟨value, hv, ha⟩ := activeAt_iff.mp hact
    obtain ⟨v, hv', ha', _⟩ := h.job value hv ha
    obtain ⟨new, ht, hnew⟩ := h.grown hact
    obtain ⟨new', ht', hnew'⟩ := h'.grown (activeAt_iff.mpr ⟨v, hv', ha'⟩)
    refine ⟨new ++ new', by rw [ht', ht, List.append_assoc], fun e he => ?_⟩
    rcases List.mem_append.mp he with he | he
    · exact hnew e he
    · exact hnew' e he

/-- Work on one job, after some entries of its own. -/
theorem Keeps.update {id i : String} {s s' : Session} {value : Job} {worked : Job × List Action}
    {new : List Entry} (pre : List Entry) (hvalue : s.jobs.lookup i = some value)
    (hjobs : s'.jobs = s.jobs.insert i worked.1) (htrace : s'.trace = s.trace ++ (pre ++ new))
    (hpre : ∀ e ∈ pre, ¬ IsBegan id e ∧ ∀ c, ¬ CalledBy c e) (hhandle : worked.1.handle = value.handle)
    (hself : id = i → value.checkpoint.active = true →
      worked.1.checkpoint.active = true ∧ BeginsNone worked.2)
    (hemits : Emits i worked.2 new) : Keeps id s s' := by
  refine ⟨fun v hv ha => ?_, fun hact => ⟨_, htrace, fun e he => ?_⟩⟩
  · by_cases hi : id = i
    · subst hi
      obtain rfl := Option.some.inj (hvalue.symm.trans hv)
      rw [hjobs, Finmap.lookup_insert]
      exact ⟨_, rfl, (hself rfl ha).1, hhandle⟩
    · rw [hjobs, Finmap.lookup_insert_of_ne _ hi]
      exact ⟨v, hv, ha, rfl⟩
  · rcases List.mem_append.mp he with he | he
    · exact hpre e he
    · refine ⟨?_, fun c => emits_not_called hemits c e he⟩
      by_cases hi : id = i
      · have hactive : value.checkpoint.active = true :=
          (activeAt_eq hvalue).symm.trans (hi ▸ hact)
        exact (hself hi hactive).2.emits hemits id e he
      · exact (not_trigger_of_outside (emits_concerns hemits hi e he)).2

theorem Move.keeps {slot : String → Prop} {s s' : Session} (h : Move slot s s') {id : String}
    (hid : ¬ slot id) : Keeps id s s' := by
  cases h with
  | error e => exact .same rfl rfl
  | wake => exact .same rfl rfl
  | read env json hfront hpop =>
      have hjobs := popEvent_jobs hpop
      unfold popEvent at hpop
      split at hpop
      · obtain rfl := Option.some.inj hpop
        refine ⟨fun v hv ha => ⟨v, hv, ha, rfl⟩, fun _ => ⟨_, rfl, fun e he => ?_⟩⟩
        obtain ⟨x, _, rfl⟩ := Option.map_eq_some_iff.mp (Option.mem_toList.mp he)
        exact ⟨(by rintro ⟨_, _, _, heq⟩; cases heq), (by rintro c ⟨_, heq⟩; cases heq)⟩
      · cases hpop
  | @work s' env i value worked hvalue hwork hupdate =>
      obtain ⟨new, hu⟩ := update_spec hupdate
      refine Keeps.update [] hvalue hu.jobs hu.trace (fun e he => by cases he) hwork.own.1
        (fun hi ha => ?_) hu.emits
      have hno : slot i = False := eq_false (hi ▸ hid)
      rw [hno] at hwork
      exact ⟨hwork.active.trans ha, hwork.beginsNone⟩

theorem Moves.keeps {slot : String → Prop} {s s' : Session} (h : Moves slot s s') {id : String}
    (hid : ¬ slot id) : Keeps id s s' := by
  induction h with
  | refl => exact .same rfl rfl
  | tail _ hmove ih => exact ih.trans (hmove.keeps hid)

theorem Life.keeps {s s' : Session} (h : Life s s') (id : String) : Keeps id s s' := by
  cases h with
  | insert env r params desired handle hrunning hfree hcan hadd hinsert =>
      obtain ⟨hjobs, _, _, _, rest, htrace, hrest⟩ := insertJob_spec hinsert
      refine ⟨fun v hv ha => ⟨v, ?_, ha, rfl⟩, fun _ => ⟨_, htrace, fun e he => ?_⟩⟩
      · have hi : id ≠ r.identifier := by
          rintro rfl
          rw [Finmap.lookup_eq_none.mpr hfree] at hv
          cases hv
        rw [hjobs, Finmap.lookup_insert_of_ne _ hi]
        exact hv
      · rcases List.mem_cons.mp he with rfl | he
        · exact ⟨not_began_command, (by rintro c ⟨_, heq⟩; cases heq)⟩
        · rcases List.mem_cons.mp he with rfl | he
          · exact ⟨(by rintro ⟨_, _, _, heq⟩; cases heq), (by rintro c ⟨_, heq⟩; cases heq)⟩
          · obtain rfl := hrest e he
            exact ⟨(by rintro ⟨_, _, _, heq⟩; cases heq), (by rintro c ⟨_, heq⟩; cases heq)⟩
  | remove i value deleteFiles hvalue hfree =>
      refine ⟨fun v hv ha => ⟨v, ?_, ha, rfl⟩, fun _ => ?_⟩
      · have hi : id ≠ i := by
          rintro rfl
          obtain rfl := Option.some.inj (hvalue.symm.trans hv)
          simp [hfree] at ha
        rw [remove_jobs hvalue hfree, Finmap.lookup_erase_ne hi]
        exact hv
      · simp only [ltkitSessionRemove, hvalue, hfree, Bool.false_eq_true, if_false]
        split
        · exact ⟨[], (List.append_nil _).symm, fun e he => by cases he⟩
        · refine ⟨[.command (.removeTorrent value.handle deleteFiles)], rfl, fun e he => ?_⟩
          obtain rfl := List.mem_singleton.mp he
          exact ⟨not_began_command, (by rintro c ⟨_, heq⟩; cases heq)⟩

theorem handleAlert_keeps {s s' : Session} {env : Environment} {alert : Alert}
    (h : s.handleAlert env alert = some s') (hs : s.Slots) (id : String) : Keeps id s s' := by
  have hpre : ∀ o, ∀ e ∈ [Entry.alert o alert], ¬ IsBegan id e ∧ ∀ c, ¬ CalledBy c e := by
    intro o e he
    obtain rfl := List.mem_singleton.mp he
    exact ⟨not_began_alert, (by rintro c ⟨_, heq⟩; cases heq)⟩
  rcases handleAlert_cases h with rfl | ⟨i, value, hvalue, _, _, hupdate⟩
  · exact ⟨fun v hv ha => ⟨v, hv, ha, rfl⟩, fun _ => ⟨_, rfl, hpre none⟩⟩
  · obtain ⟨new, hu⟩ := update_spec hupdate
    have hend := onAlert_end env i value alert
    have hok := hs i value hvalue
    refine Keeps.update (s := s) [.alert (some i) alert] hvalue hu.jobs ?_ (hpre _) hend.own.1
      (fun _ ha => ⟨(hend.active hok).trans ha, hend.beginsNone hok ha⟩) hu.emits
    rw [hu.trace]
    simp

end Session

/-! ## Waiting callers -/

/-- Every waiting checkpoint call owns the last round of its torrent. -/
def World.Owners (w : World) : Prop :=
  ∀ c id flush timeoutMs g, w.calls c = some ⟨.checkpoint id flush timeoutMs, g⟩ →
    ∃ value p, w.session.jobs.lookup id = some value ∧
      OwnRound w.session.trace c id flush timeoutMs value.handle p

/-- How a checkpoint call comes to wait: it has begun its round. -/
theorem Session.checkpoint_waits {s s' : Session} {env : Environment} {id : String} {flush : Bool}
    {timeoutMs : Int} (h : s.ltkitSessionCheckpoint env id flush timeoutMs = some (s', none)) :
    ∃ value, s.jobs.lookup id = some value ∧ value.completionCheckpoint = false ∧
      s.update env id (beginCheckpoint value flush) = some s' := by
  unfold ltkitSessionCheckpoint at h
  split at h
  · cases h
  · split at h
    · cases h
    · next value hvalue =>
        split at h
        · split at h <;> cases h
        · split at h
          · cases h
          · split at h
            · cases h
            · next hbusy =>
                simp only [Bool.or_eq_true, not_or, Bool.not_eq_true] at hbusy
                obtain ⟨t, ht, h⟩ := Option.bind_eq_some_iff.mp h
                split at h
                · obtain ⟨u, _, hu⟩ := Option.map_eq_some_iff.mp h
                  cases hu
                · obtain ⟨rfl, _⟩ := Prod.mk.inj (Option.some.inj h)
                  exact ⟨value, hvalue, hbusy.2, ht⟩

/-- A torrent whose slot is taken has no second checkpoint call. -/
theorem Session.checkpoint_busy {s : Session} {env : Environment} {id : String} {flush : Bool}
    {timeoutMs : Int} {res : Session × Option Response} {value : Job}
    (hvalue : s.jobs.lookup id = some value)
    (htaken : value.checkpoint.active = true ∨ value.completionCheckpoint = true)
    (h : s.ltkitSessionCheckpoint env id flush timeoutMs = some res) :
    res.1.jobs = s.jobs ∧ res.1.trace = s.trace := by
  have hreply : ∀ m answer, (s.reply env m answer).1.jobs = s.jobs ∧
      (s.reply env m answer).1.trace = s.trace := by
    intro m answer
    cases answer with
    | fail code safeMessage => exact ⟨rfl, rfl⟩
    | ok output =>
        simp only [reply]
        split <;> exact ⟨rfl, rfl⟩
  unfold ltkitSessionCheckpoint at h
  have hbusy : (value.checkpoint.active || !value.checkpoint.barrier.idle ||
      value.completionCheckpoint) = true := by
    rcases htaken with ha | hc
    · simp [ha]
    · simp [hc]
  simp only [hvalue, hbusy, if_true] at h
  split at h
  · obtain rfl := Option.some.inj h
    exact ⟨rfl, rfl⟩
  · split at h
    · split at h <;> obtain rfl := Option.some.inj h
      · exact ⟨rfl, rfl⟩
      · exact hreply _ _
    · split at h <;> obtain rfl := Option.some.inj h <;> exact ⟨rfl, rfl⟩

namespace World

theorem Owners.init : Owners {} := by
  intro c id flush timeoutMs g hc
  cases hc

/-- The owners after a step that keeps the slots of the waiting callers. -/
theorem Owners.keep {w : World} (h : w.Owners) (hc : w.Callers) {s' : Session} {c : CallId}
    {id : String} {flush : Bool} {timeoutMs : Int} {g : Nat}
    (hwait : w.calls c = some ⟨.checkpoint id flush timeoutMs, g⟩) (hkeeps : Keeps id w.session s') :
    ∃ value p, s'.jobs.lookup id = some value ∧
      OwnRound s'.trace c id flush timeoutMs value.handle p := by
  obtain ⟨value, p, hvalue, hown⟩ := h c id flush timeoutMs g hwait
  have hact : w.session.activeAt id = true := (hc.active id).mpr ⟨c, _, hwait, _, _, rfl⟩
  obtain ⟨v, hv, _, hh⟩ := hkeeps.job value hvalue ((activeAt_eq hvalue).symm.trans hact)
  obtain ⟨new, htrace, hnew⟩ := hkeeps.grown hact
  refine ⟨v, p, hv, ?_⟩
  rw [hh, htrace]
  exact hown.append (fun e he => (hnew e he).1) fun e he => (hnew e he).2 c

/-- Entries of the trace that are no business of the owners. -/
theorem keeps_record {id : String} {s : Session} {e : Entry} (hbegan : ¬ IsBegan id e)
    (hcalled : ∀ c, ¬ CalledBy c e) : Keeps id s (s.record e) where
  job := fun value hv ha => ⟨value, hv, ha, rfl⟩
  grown := fun _ => ⟨[e], rfl, fun _ hx => List.mem_singleton.mp hx ▸ ⟨hbegan, hcalled⟩⟩

theorem keeps_returned {id : String} {s : Session} {c : CallId} {api : Api} {response : Response} :
    Keeps id s (s.record (.returned c api response)) :=
  keeps_record ((by rintro ⟨_, _, _, heq⟩; cases heq)) (by rintro c ⟨_, heq⟩; cases heq)

theorem Owners.step {w w' : World} {l : Step} (ho : w.Owners) (hs : w.session.Slots)
    (hc : w.Callers) (h : w.step l = some w') : w'.Owners := by
  cases l with
  | alert env alert =>
      simp only [World.step, Option.ite_none_left_eq_some, Option.map_eq_some_iff] at h
      obtain ⟨_, s, hh, rfl⟩ := h
      exact fun c id flush timeoutMs g hwait => ho.keep hc hwait (handleAlert_keeps hh hs id)
  | destroy =>
      obtain rfl := Option.some.inj h
      exact fun c id flush timeoutMs g hwait => ho.keep hc hwait (.same rfl rfl)
  | call env c api =>
      simp only [World.step, Option.ite_none_left_eq_some, Option.map_eq_some_iff, Bool.or_eq_true,
        not_or, Bool.not_eq_true, Option.isSome_eq_false_iff, Option.isNone_iff_eq_none] at h
      obtain ⟨⟨hfree, _⟩, res, hres, rfl⟩ := h
      -- what the call does to a slot that another caller has taken
      have hbody : ∀ id, w.session.activeAt id = true →
          Keeps id (w.session.record (.called c api)) res.1 := by
        intro id hact
        obtain ⟨value, hvalue, hactive⟩ := activeAt_iff.mp hact
        by_cases hck : IsCheckpoint api id
        · obtain ⟨flush, timeoutMs, rfl⟩ := hck
          have hbusy := @checkpoint_busy (w.session.record _) _ _ _ _ _ _ hvalue (Or.inl hactive) hres
          exact .same hbusy.1 hbusy.2
        · rcases enter_moves (IsCheckpoint api) (fun _ h => h) hres with hm | hm
          · exact hm.keeps hck
          · exact hm.keeps id
      have hothers : ∀ d id flush timeoutMs g, d ≠ c →
          w.calls d = some ⟨.checkpoint id flush timeoutMs, g⟩ →
          ∃ value p, res.1.jobs.lookup id = some value ∧
            OwnRound res.1.trace d id flush timeoutMs value.handle p := by
        intro d id flush timeoutMs g hd hwait
        have hact : w.session.activeAt id = true := (hc.active id).mpr ⟨d, _, hwait, _, _, rfl⟩
        obtain ⟨value, p, hvalue, hown⟩ := ho d id flush timeoutMs g hwait
        have hkeeps := hbody id hact
        obtain ⟨v, hv, _, hh⟩ := hkeeps.job value hvalue ((activeAt_eq hvalue).symm.trans hact)
        obtain ⟨new, htrace, hnew⟩ := hkeeps.grown hact
        refine ⟨v, p, hv, ?_⟩
        rw [hh, htrace]
        refine (hown.append (fun e he => ?_) fun e he => ?_).append
          (fun e he => (hnew e he).1) fun e he => (hnew e he).2 d
        · obtain rfl := List.mem_singleton.mp he
          rintro ⟨_, _, _, heq⟩
          cases heq
        · obtain rfl := List.mem_singleton.mp he
          rintro ⟨_, heq⟩
          cases heq
          exact hd rfl
      intro d id flush timeoutMs g hwait
      cases hr : res.2 with
      | some response =>
          have hwait' : Function.update w.calls c none d =
              some ⟨.checkpoint id flush timeoutMs, g⟩ := by
            simpa [hr, returned] using hwait
          have hd : d ≠ c := by
            rintro rfl
            simp at hwait'
          rw [Function.update_of_ne hd] at hwait'
          obtain ⟨value, p, hv, hown⟩ := hothers d id flush timeoutMs g hd hwait'
          refine ⟨value, p, hv, hown.append (fun e he => ?_) fun e he => ?_⟩ <;>
            obtain rfl := List.mem_singleton.mp he
          · rintro ⟨_, _, _, heq⟩
            cases heq
          · rintro ⟨_, heq⟩
            cases heq
      | none =>
          have hwait' : Function.update w.calls c (some ⟨api, res.1.wakeGeneration⟩) d =
              some ⟨.checkpoint id flush timeoutMs, g⟩ := by
            simpa [hr] using hwait
          by_cases hd : d = c
          · -- the call itself has begun its round
            subst hd
            rw [Function.update_self, Option.some.injEq, Wait.mk.injEq] at hwait'
            obtain ⟨rfl, _⟩ := hwait'
            have hres' : (w.session.record (.called d (.checkpoint id flush timeoutMs))
                ).ltkitSessionCheckpoint env id flush timeoutMs = some (res.1, none) := by
              rw [← hr]
              exact hres
            obtain ⟨value, hvalue, hcompletion, hupdate⟩ := checkpoint_waits hres'
            obtain ⟨new, hu⟩ := update_spec hupdate
            have hemits := hu.emits
            rw [beginCheckpoint_eq] at hemits
            have hnew := emits_round hemits
            rw [hcompletion] at hnew
            refine ⟨(beginCheckpoint value flush).1, w.session.trace.length, ?_, ?_⟩
            · show res.1.jobs.lookup id = _
              rw [hu.jobs, Finmap.lookup_insert]
            · show OwnRound res.1.trace d id flush timeoutMs _ _
              rw [hu.trace, hnew, beginCheckpoint_eq, record_trace]
              have hnot : ∀ u e, w.session.trace.length + 1 < u → At ((w.session.trace ++
                  [.called d (.checkpoint id flush timeoutMs)]) ++ [.began id value.handle flush
                    false, .command (requestCommand flush value.handle)]) u e →
                  e = .command (requestCommand flush value.handle) := by
                intro u e hlt he
                rcases at_append.mp he with he | ⟨hle, he⟩
                · have := he.lt
                  simp at this
                  omega
                · have := he.lt
                  simp only [List.length_append, List.length_cons, List.length_nil] at this hle he
                  obtain rfl : u = w.session.trace.length + 2 := by omega
                  simpa [At] using he.symm
              refine ⟨by simp [At], by simp [At], fun u e hlt he => ?_, fun u e hlt he => ?_⟩
              · rw [hnot u e hlt he]
                exact not_began_command
              · by_cases hu' : u = w.session.trace.length + 1
                · subst hu'
                  have : e = .began id value.handle flush false := by simpa [At] using he.symm
                  rw [this]
                  rintro ⟨_, heq⟩
                  cases heq
                · rw [hnot u e (by omega) he]
                  rintro ⟨_, heq⟩
                  cases heq
          · rw [Function.update_of_ne hd] at hwait'
            exact hothers d id flush timeoutMs g hd hwait'
  | resume env c =>
      obtain ⟨wait, res, hwaiting, hres, rfl⟩ := World.step_resume h
      intro d id flush timeoutMs g hwait
      have hwait' : Function.update w.calls c none d =
          some ⟨.checkpoint id flush timeoutMs, g⟩ := hwait
      have hd : d ≠ c := by
        rintro rfl
        simp at hwait'
      rw [Function.update_of_ne hd] at hwait'
      -- the other call waits for another torrent
      have hid : ¬ IsCheckpoint wait.api id := fun hck =>
        hd (hc.unique id d c ⟨_, hwait', _, _, rfl⟩ ⟨wait, hwaiting, hck⟩)
      have hm := resume_moves (IsCheckpoint wait.api)
        (fun i hck => ⟨hck, (hc.active i).mpr ⟨c, wait, hwaiting, hck⟩⟩) hres
      exact ho.keep hc hwait' ((hm.keeps hid).trans keeps_returned)

/-- After every run the waiting callers own their rounds. -/
theorem owners_of_run {ls : List Step} {w : World} (hrun : Lts.exec step {} ls = some w) :
    w.Owners := by
  have hinv : w.session.Slots ∧ w.Callers ∧ w.Owners := by
    obtain ⟨hs, hc⟩ := run_callers (@Lts.exec_nil _ _ step ({} : World))
    refine Lts.exec_invariant' (fun w : World => w.session.Slots ∧ w.Callers ∧ w.Owners)
      ⟨hs, hc, .init⟩ (fun w l w' h hstep => ?_) ls w hrun
    obtain ⟨hs', hc'⟩ := step_callers h.1 h.2.1 hstep
    exact ⟨hs', hc', h.2.2.step h.1 h.2.1 hstep⟩
  exact hinv.2.2

end World

end LibtorrentKit
