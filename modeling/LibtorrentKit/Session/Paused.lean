/-
  A torrent stays paused while it completes.

  The finished alert that starts a completion pauses the torrent. Only `ltkit_session_start`
  ever resumes one (`enter_steady`, `onAlert_steady`), and it does not ask whether a completion
  waits or is under way. `completing_paused_iff`: along a run every completing torrent is paused
  exactly when no call starts a torrent that completes, under whichever identifier it is known.
-/
import LibtorrentKit.Session.Frames
import LibtorrentKit.Session.Jobs
import LibtorrentKit.Session.Replies

namespace LibtorrentKit

open History Session

/-- The torrent is started. -/
def IsResume (h : Handle) (e : Entry) : Prop := e = .command (.resume h)

/-- The last command to pause or to start the torrent was to pause it. -/
def PausedLast (log : List Entry) (h : Handle) : Prop :=
  ∃ t, At log t (.command (.pause h)) ∧ NoneAfter (IsResume h) log t

/-- The entry starts no torrent. -/
def Entry.Steady (e : Entry) : Prop := ∀ h, ¬ IsResume h e

theorem PausedLast.append {log new : List Entry} {h : Handle} (hp : PausedLast log h)
    (hnew : ∀ e ∈ new, e.Steady) : PausedLast (log ++ new) h := by
  obtain ⟨t, hat, hquiet⟩ := hp
  exact ⟨t, hat.append new, hquiet.append fun e he => hnew e he h⟩

theorem Steady.emits {id : String} {actions : List Action} {new : List Entry}
    (h : Steady actions) (hemits : Emits id actions new) : ∀ e ∈ new, e.Steady := by
  rintro e he handle rfl
  rcases emits_mem hemits he with ⟨a, ha, hae⟩ | ⟨_, _, heq⟩
  · cases a <;> simp only [actionEntry, Option.some.injEq, reduceCtorEq, Entry.command.injEq]
      at hae
    exact h handle (hae ▸ ha)
  · cases heq

/-! ## Calls that start no torrent -/

namespace Session

theorem popEvent_steady {s s' : Session} {env : Environment} {json : String}
    (h : s.popEvent env json = some s') : Grown Entry.Steady s s' := by
  obtain ⟨_, _, _, new, htrace, hnew⟩ := popEvent_spec h
  refine ⟨new, htrace, fun e he handle heq => ?_⟩
  obtain ⟨id, rfl⟩ := hnew e he
  cases heq

theorem insertJob_steady {s s' : Session} {env : Environment} {id : String}
    {params : AddTorrentParams} {value : Job} (h : s.insertJob env id params value = some s') :
    Grown Entry.Steady s s' := by
  obtain ⟨_, _, _, _, rest, htrace, hrest⟩ := insertJob_spec h
  refine ⟨_, htrace, fun e he k => ?_⟩
  rcases List.mem_cons.mp he with rfl | he
  · simp [IsResume]
  · rcases List.mem_cons.mp he with rfl | he
    · simp [IsResume]
    · rw [hrest e he]
      simp [IsResume]

theorem remove_steady (s : Session) (id : String) (deleteFiles : Bool) :
    Grown Entry.Steady s (s.ltkitSessionRemove id deleteFiles).1 := by
  unfold ltkitSessionRemove
  split
  · exact .same rfl
  · split
    · exact .same rfl
    · next value _ _ =>
        dsimp only
        split
        · exact .same rfl
        · exact .record (s := s) (e := .command (.removeTorrent value.handle deleteFiles))
            (by simp [Entry.Steady, IsResume])

/-- What a call does besides starting a torrent starts none. -/
theorem steadyFrame : Frame (Grown Entry.Steady) Steady where
  refl _ := .same rfl
  trans h h' := h.trans h'
  steady h := h
  error _ _ := .same rfl
  update h hw := by
    obtain ⟨new, hu⟩ := update_spec h
    exact ⟨new, hu.trace, hw.emits hu.emits⟩
  read h := popEvent_steady h
  insert h := insertJob_steady h
  remove := remove_steady

/-- Only `ltkit_session_start` starts a torrent. -/
theorem enter_steady {s : Session} {env : Environment} {api : Api}
    {res : Session × Option Response} (hstart : ∀ id, api ≠ .start id)
    (h : s.enter env api = some res) : Grown Entry.Steady s res.1 :=
  steadyFrame.enter (fun id heq => absurd heq (hstart id)) (fun _ => .same rfl) h

end Session

/-! ## Alerts -/

theorem FinishEnd.steady {env : Environment} {id : String} {value : Job} {success : Bool}
    {worked : Job × List Action} (h : FinishEnd env id value success worked) :
    Steady worked.2 := by
  cases h with
  | completion hcompletion hend => cases hend <;> simp [Steady]
  | answered hcompletion hactive => simp [Steady]
  | drained hcompletion hactive => exact startWaitingCompletion_steady _

/-- No alert starts a torrent. -/
theorem onAlert_steady (env : Environment) (id : String) (value : Job) (alert : Alert) :
    Steady (onAlert env id value alert).2 := by
  by_cases hkind : alert.kind = .metadataReceived
  · have hselection := (applySelection_prioritizing env { value with metadataReady := true }).steady
    unfold onAlert
    simp only [hkind]
    split
    · exact hselection.append (by simp [Steady])
    · exact hselection.append (by simp [Steady])
  · generalize hworked : onAlert env id value alert = worked
    have hend := onAlert_end env id value alert
    rw [hworked] at hend
    cases hend with
    | metadata hmetadata => exact absurd hmetadata hkind
    | rejected hmetadata => exact absurd hmetadata hkind
    | completing _ hcompletes hstarted =>
        subst hstarted
        have hs := startWaitingCompletion_steady { value with completionWaiting := true }
        intro h ha
        simp only [List.mem_cons, reduceCtorEq, Action.command.injEq, false_or] at ha
        exact hs h ha
    | saved request data _ hphase hend =>
        intro h ha
        rcases List.mem_cons.mp ha with ha | ha
        · cases ha
        · exact hend.steady h ha
    | saveFailed request _ hphase hend =>
        intro h ha
        rcases List.mem_cons.mp ha with ha | ha
        · cases ha
        · exact hend.steady h ha
    | flushed | errorNoted | errorReported | status | ignored => simp [Steady]

/-! ## Which torrents complete -/

open World (completing)

theorem completing_of_start {value : Job} (h : completing (startWaitingCompletion value).1) :
    completing value := by
  rcases startWaitingCompletion_cases value with ⟨heq, _⟩ | ⟨hwaiting, _, _, _⟩
  · rwa [heq] at h
  · exact Or.inl hwaiting

/-- No call triggers a completion. -/
theorem Session.Work.completing_of {slot closing : Prop} {env : Environment} {value : Job}
    {worked : Job × List Action} (h : Work slot closing env value worked)
    (hc : completing worked.1) : completing value := by
  cases h with
  | select hselects htuning =>
      obtain ⟨h1, h2, _⟩ := hselects.sameSlot
      unfold World.completing at *
      rwa [← h1, ← h2]
  | reject => exact hc
  | begin hslot flush =>
      rw [beginCheckpoint_eq] at hc
      exact hc
  | abandon hslot hactive =>
      unfold abandonCheckpoint at hc
      split at hc
      · have hfreed := completing_of_start hc
        exact hfreed
      · exact hc
  | finish hslot hactive =>
      have hfreed := completing_of_start hc
      exact hfreed

theorem FinishEnd.completing_of {env : Environment} {id : String} {value : Job} {success : Bool}
    {worked : Job × List Action} (h : FinishEnd env id value success worked)
    (hc : completing worked.1) : completing value := by
  cases h with
  | completion hcompletion hend => exact Or.inr hcompletion
  | answered hcompletion hactive => exact hc
  | drained hcompletion hactive =>
      have hfreed := completing_of_start hc
      exact hfreed

/-- An alert that triggers a completion pauses the torrent first. -/
theorem AlertEnd.completing_of {env : Environment} {id : String} {value : Job} {alert : Alert}
    {worked : Job × List Action} (h : AlertEnd env id value alert worked)
    (hc : World.completing worked.1) :
    World.completing value ∨ ∃ rest, worked.2 = .command (.pause value.handle) :: rest := by
  cases h with
  | metadata hkind hselects htuning =>
      obtain ⟨h1, h2, _⟩ := hselects.sameSlot
      unfold World.completing at *
      rw [← h1, ← h2]
      exact Or.inl hc
  | rejected hkind hselects htuning =>
      obtain ⟨h1, h2, _⟩ := hselects.sameSlot
      unfold World.completing at *
      rw [← h1, ← h2]
      exact Or.inl hc
  | completing hkind hcompletes hworked => exact Or.inr ⟨_, rfl⟩
  | saved request data hkind hphase hend =>
      have hbefore := hend.completing_of hc
      exact Or.inl hbefore
  | saveFailed request hkind hphase hend =>
      have hbefore := hend.completing_of hc
      exact Or.inl hbefore
  | flushed | errorNoted | errorReported | status | ignored => exact Or.inl hc

namespace Session

/-- Every torrent that completes afterwards has completed before. -/
def Untriggered (s s' : Session) : Prop :=
  ∀ id value', s'.jobs.lookup id = some value' → completing value' →
    ∃ value, s.jobs.lookup id = some value ∧ completing value ∧ value'.handle = value.handle

theorem Untriggered.same {s s' : Session} (h : s'.jobs = s.jobs) : Untriggered s s' :=
  fun _ value' hv hc => ⟨value', h ▸ hv, hc, rfl⟩

theorem Untriggered.trans {s t u : Session} (h : Untriggered s t) (h' : Untriggered t u) :
    Untriggered s u := by
  intro id value' hv hc
  obtain ⟨v, hv', hc', hh⟩ := h' id value' hv hc
  obtain ⟨v', hv'', hc'', hh'⟩ := h id v hv' hc'
  exact ⟨v', hv'', hc'', hh.trans hh'⟩

theorem Untriggered.set {s s' : Session} {id : String} {value value' : Job}
    (hjobs : s'.jobs = s.jobs.insert id value') (hvalue : s.jobs.lookup id = some value)
    (hc : completing value' → completing value) (hh : value'.handle = value.handle) :
    Untriggered s s' :=
  forall_jobs_insert hjobs (fun h => ⟨value, hvalue, hc h, hh⟩)
    fun _ v _ hv h => ⟨v, hv, h, rfl⟩

theorem Moves.untriggered {slot : String → Prop} {s s' : Session} (h : Moves slot s s') :
    Untriggered s s' := by
  induction h with
  | refl => exact .same rfl
  | tail _ hmove ih =>
      refine ih.trans ?_
      cases hmove with
      | error e => exact .same rfl
      | wake => exact .same rfl
      | read env json hfront hpop => exact .same (popEvent_spec hpop).1
      | work env id hvalue hwork hupdate =>
          obtain ⟨new, hu⟩ := update_spec hupdate
          exact .set hu.jobs hvalue hwork.completing_of hwork.own.1

theorem Life.untriggered {s s' : Session} (h : Life s s') : Untriggered s s' := by
  cases h with
  | insert env r params desired handle hrunning hfree hcan hadd hinsert =>
      refine forall_jobs_insert (insertJob_spec hinsert).1 (fun hc => ?_)
        fun i v _ hv h => ⟨v, hv, h, rfl⟩
      rcases hc with hc | hc <;> cases hc
  | remove id value deleteFiles hvalue hactive =>
      intro i v hv hc
      rw [remove_jobs hvalue hactive] at hv
      by_cases hi : i = id
      · subst hi
        simp at hv
      · rw [Finmap.lookup_erase_ne hi] at hv
        exact ⟨v, hv, hc, rfl⟩

/-- A torrent with this handle completes. -/
def completesOn (s : Session) (h : Handle) : Bool :=
  decide (∃ id ∈ s.jobs.keys, (s.jobs.lookup id).any fun value =>
    (value.completionWaiting || value.completionCheckpoint) && decide (value.handle = h))

theorem completesOn_iff {s : Session} {h : Handle} : s.completesOn h = true ↔
    ∃ id value, s.jobs.lookup id = some value ∧ completing value ∧ value.handle = h := by
  simp only [completesOn, decide_eq_true_eq, Option.any_eq_true, Bool.and_eq_true,
    Bool.or_eq_true]
  constructor
  · rintro ⟨id, _, value, hv, hc, hh⟩
    exact ⟨id, value, hv, hc, hh⟩
  · rintro ⟨id, value, hv, hc, hh⟩
    exact ⟨id, Finmap.mem_keys.mpr (Finmap.mem_of_lookup_eq_some hv), value, hv, hc, hh⟩

/-- `ltkit_session_start` fails, or starts the torrent and changes nothing else. -/
theorem start_cases {s : Session} {env : Environment} {id : String} {res : Session × Response}
    (h : s.ltkitSessionStart env id = some res) :
    (res.1.jobs = s.jobs ∧ res.1.trace = s.trace ∧
      ∀ value, s.jobs.lookup id = some value → value.stopped = true) ∨
    ∃ value, s.jobs.lookup id = some value ∧ value.stopped = false ∧
      res.1.jobs = s.jobs.insert id value ∧
      res.1.trace = s.trace ++ [.command (.resume value.handle)] := by
  unfold ltkitSessionStart onActive at h
  split at h
  · next hnone =>
      obtain rfl := Option.some.inj h
      exact Or.inl ⟨rfl, rfl, fun value hv => by rw [hnone] at hv; cases hv⟩
  · next value hvalue =>
      split at h
      · next hstopped =>
          obtain rfl := Option.some.inj h
          exact Or.inl ⟨rfl, rfl, fun v hv => Option.some.inj (hvalue.symm.trans hv) ▸ hstopped⟩
      · next hactive =>
          obtain ⟨t, ht, rfl⟩ := Option.map_eq_some_iff.mp h
          obtain ⟨new, hu⟩ := update_spec ht
          obtain ⟨rest, rfl, hrest⟩ := emits_cons (by simp [Exact]) rfl hu.emits
          obtain rfl : rest = [] := hrest
          refine Or.inr ⟨value, hvalue, by simpa using hactive, ?_, ?_⟩
          · simpa [reply, copyBuffer, Output.isEmpty] using hu.jobs
          · simpa [reply, copyBuffer, Output.isEmpty] using hu.trace

end Session

/-! ## Completing torrents are paused -/

namespace World

/-- Every torrent whose completion waits or is under way was paused, and not started since. -/
def CompletingPaused (w : World) : Prop :=
  ∀ id value, w.session.jobs.lookup id = some value →
    value.completionWaiting = true ∨ value.completionCheckpoint = true →
      PausedLast w.session.trace value.handle

/-- The step starts a torrent that completes, under this identifier or under another one. -/
def startsCompleting (w : World) : Step → Bool
  | .call _ _ (.start id) =>
      (w.session.jobs.lookup id).any fun value =>
        !value.stopped && w.session.completesOn value.handle
  | _ => false

theorem CompletingPaused.carry {w : World} (h : w.CompletingPaused) {s' : Session}
    {calls' : CallId → Option Wait} (hu : Untriggered w.session s')
    (hg : Grown Entry.Steady w.session s') : CompletingPaused ⟨s', calls'⟩ := by
  intro id value' hv hc
  obtain ⟨value, hvalue, hcompleting, hh⟩ := hu id value' hv hc
  obtain ⟨new, htrace, hnew⟩ := hg
  show PausedLast s'.trace _
  rw [hh, htrace]
  exact (h id value hvalue hcompleting).append hnew

theorem alert_paused {w : World} (h : w.CompletingPaused) {env : Environment} {alert : Alert}
    {s' : Session} (hh : w.session.handleAlert env alert = some s') :
    CompletingPaused ⟨s', w.calls⟩ := by
  have halert : ∀ o, Entry.Steady (.alert o alert) := fun o k heq => by cases heq
  rcases handleAlert_cases hh with rfl | ⟨i, value, hvalue, _, _, hupdate⟩
  · exact h.carry (.same rfl) (.record (halert none))
  · obtain ⟨new, hu⟩ := update_spec hupdate
    have hend := onAlert_end env i value alert
    have hsteady := (onAlert_steady env i value alert).emits hu.emits
    have htrace : s'.trace = w.session.trace ++ .alert (some i) alert :: new := by
      rw [hu.trace]
      simp
    have hgrown : ∀ e ∈ .alert (some i) alert :: new, e.Steady := by
      intro e he
      rcases List.mem_cons.mp he with rfl | he
      · exact halert _
      · exact hsteady e he
    refine forall_jobs_insert hu.jobs (fun hc => ?_) fun id v _ hv hc => ?_
    · show PausedLast s'.trace _
      rw [hend.own.1, htrace]
      rcases hend.completing_of hc with hcompleting | ⟨rest, hpause⟩
      · exact (h i value hvalue hcompleting).append hgrown
      · -- the pause command stands in the trace, and nothing after it starts the torrent
        have hemits := hu.emits
        rw [hpause] at hemits
        obtain ⟨tail, rfl, _⟩ := emits_cons (by simp [Exact]) rfl hemits
        refine ⟨w.session.trace.length + 1, at_append_length (t := 1) rfl, fun u e hlt he => ?_⟩
        rcases at_append.mp he with he | ⟨_, he⟩
        · have := he.lt
          omega
        · exact hgrown e he.mem value.handle
    · show PausedLast s'.trace _
      rw [htrace]
      exact (h id v hv hc).append hgrown

theorem start_paused {w : World} (h : w.CompletingPaused) {env : Environment} {c : CallId}
    {id : String} {w' : World} (hclean : w.startsCompleting (.call env c (.start id)) = false)
    (hstep : w.step (.call env c (.start id)) = some w') : w'.CompletingPaused := by
  simp only [step, Option.ite_none_left_eq_some, Option.map_eq_some_iff] at hstep
  obtain ⟨_, res, hres, rfl⟩ := hstep
  obtain ⟨r, hr, rfl⟩ := Option.map_eq_some_iff.mp hres
  have hentered : Grown Entry.Steady w.session (w.session.record (.called c (.start id))) :=
    .record fun k heq => by cases heq
  have hreturned : Entry.Steady (.returned c (.start id) r.2) := fun k heq => by cases heq
  rcases start_cases hr with ⟨hjobs, htrace, _⟩ | ⟨value, hvalue, hactive, hjobs, htrace⟩
  · exact h.carry (.same hjobs) (hentered.trans ((Grown.same htrace).trans (.record hreturned)))
  · have hvalue' : w.session.jobs.lookup id = some value := hvalue
    have hother : w.session.completesOn value.handle = false := by
      simpa [startsCompleting, hvalue', hactive] using hclean
    intro i v hv hc
    have hv' : w.session.jobs.lookup i = some v := by
      have hset : (w.session.jobs.insert id value).lookup i = some v := hjobs ▸ hv
      by_cases hi : i = id
      · subst hi
        rw [Finmap.lookup_insert] at hset
        rw [hvalue', hset]
      · rwa [Finmap.lookup_insert_of_ne _ hi] at hset
    -- no completing torrent has the handle that is started
    have hne : v.handle ≠ value.handle := fun heq => by
      rw [completesOn_iff.mpr ⟨i, v, hv', hc, heq⟩] at hother
      cases hother
    obtain ⟨t, hat, hquiet⟩ := h i v hv' hc
    show PausedLast (r.1.trace ++ _) _
    rw [htrace]
    refine ⟨t, ((hat.append _).append _).append _, ((hquiet.append ?_).append ?_).append ?_⟩
    · exact fun e he => List.mem_singleton.mp he ▸ fun heq => by cases heq
    · intro e he heq
      obtain rfl := List.mem_singleton.mp he
      have hhandle : value.handle = v.handle := Command.resume.inj (Entry.command.inj heq)
      exact hne hhandle.symm
    · exact fun e he => List.mem_singleton.mp he ▸ hreturned v.handle

theorem step_paused {w w' : World} {l : Step} (h : w.CompletingPaused) (hc : w.Callers)
    (hclean : w.startsCompleting l = false) (hstep : w.step l = some w') : w'.CompletingPaused := by
  cases l with
  | alert env alert =>
      simp only [step, Option.ite_none_left_eq_some, Option.map_eq_some_iff] at hstep
      obtain ⟨_, s, hh, rfl⟩ := hstep
      exact alert_paused h hh
  | destroy =>
      obtain rfl := Option.some.inj hstep
      exact h.carry (.same rfl) (.same rfl)
  | call env c api =>
      by_cases hstart : ∃ id, api = .start id
      · obtain ⟨id, rfl⟩ := hstart
        exact start_paused h hclean hstep
      · simp only [step, Option.ite_none_left_eq_some, Option.map_eq_some_iff] at hstep
        obtain ⟨_, res, hres, rfl⟩ := hstep
        have hbody : Untriggered (w.session.record (.called c api)) res.1 := by
          rcases enter_moves (fun _ => True) (fun _ _ => trivial) hres with hm | hm
          · exact hm.untriggered
          · exact hm.untriggered
        have hgrown : Grown Entry.Steady w.session res.1 :=
          (Grown.record fun k heq => by cases heq).trans
            (enter_steady (fun id heq => hstart ⟨id, heq⟩) hres)
        cases hr : res.2 with
        | none => exact h.carry hbody hgrown
        | some response =>
            exact h.carry hbody (hgrown.trans (.record fun k heq => by cases heq))
  | resume env c =>
      obtain ⟨wait, res, hwait, hres, rfl⟩ := step_resume hstep
      have hm := hc.resumed hwait hres
      exact h.carry hm.untriggered
        ((steadyFrame.resume hres).trans (.record fun k heq => by cases heq))

/-- A torrent that completes and is started is not paused. -/
theorem start_breaks {w w' : World} {l : Step} (hbad : w.startsCompleting l = true)
    (hstep : w.step l = some w') : ¬ w'.CompletingPaused := by
  obtain ⟨env, c, id, rfl⟩ : ∃ env c id, l = .call env c (.start id) := by
    unfold startsCompleting at hbad
    split at hbad
    · exact ⟨_, _, _, rfl⟩
    · cases hbad
  simp only [startsCompleting, Option.any_eq_true, Bool.and_eq_true, Bool.not_eq_eq_eq_not,
    Bool.not_true] at hbad
  obtain ⟨value, hvalue, hactive, hcompletes⟩ := hbad
  obtain ⟨i, v, hv, hc, hh⟩ := completesOn_iff.mp hcompletes
  simp only [step, Option.ite_none_left_eq_some, Option.map_eq_some_iff] at hstep
  obtain ⟨_, res, hres, rfl⟩ := hstep
  obtain ⟨r, hr, rfl⟩ := Option.map_eq_some_iff.mp hres
  rcases start_cases hr with ⟨_, _, hstopped⟩ | ⟨value', hvalue', _, hjobs, htrace⟩
  · rw [hstopped value hvalue] at hactive
    cases hactive
  · obtain rfl : value = value' := Option.some.inj (hvalue.symm.trans hvalue')
    have hv' : r.1.jobs.lookup i = some v := by
      rw [hjobs]
      by_cases hi : i = id
      · subst hi
        rw [Finmap.lookup_insert, ← hvalue, hv]
      · rwa [Finmap.lookup_insert_of_ne _ hi]
    intro hpaused
    obtain ⟨t, hat, hquiet⟩ := hpaused i v hv' hc
    -- the last pause lies before the start, and the start is not quiet
    have hlog : (w.returned c (.start id) r).session.trace =
        (w.session.trace ++ [.called c (.start id)]) ++
          [.command (.resume value.handle), .returned c (.start id) r.2] := by
      show r.1.trace ++ _ = _
      rw [htrace, record_trace]
      simp
    change At (w.returned c (.start id) r).session.trace t _ at hat
    change NoneAfter _ (w.returned c (.start id) r).session.trace t at hquiet
    rw [hlog] at hat hquiet
    have hresume : At ((w.session.trace ++ [Entry.called c (.start id)]) ++
        [.command (.resume value.handle), .returned c (.start id) r.2])
          (w.session.trace ++ [Entry.called c (.start id)]).length (.command (.resume v.handle)) := by
      simp [At, hh]
    rcases at_append.mp hat with hbefore | ⟨hle, hafter⟩
    · exact hquiet _ _ hbefore.lt hresume rfl
    · have hmem := hafter.mem
      simp at hmem

/-- **A torrent stays paused while it completes, and when that holds.** Along a run the last
    command to pause or to start the torrent of every job whose completion waits or is under way
    was to pause it, in every state, exactly when no step of the run starts such a torrent. -/
theorem completing_paused_iff {ls : List Step} {w : World} (hrun : Lts.exec step {} ls = some w) :
    Lts.EachState step CompletingPaused {} ls ↔
      Lts.EachStep step (fun w l => w.startsCompleting l = false) {} ls := by
  have hinit : ({} : World).CompletingPaused ∧ ({} : World).session.Slots ∧ Callers {} := by
    obtain ⟨hs, hc⟩ := run_callers (@Lts.exec_nil _ _ step ({} : World))
    refine ⟨fun id value hv => ?_, hs, hc⟩
    simp at hv
  refine @Lts.eachState_iff_eachStep _ _ step
    (fun w => w.CompletingPaused ∧ w.session.Slots ∧ w.Callers) CompletingPaused
    (fun w l => w.startsCompleting l = false) (fun _ _ => True) {} hinit (fun w h => h.1)
    (fun w l w' h _ hclean hstep => ?_) (fun w l w' _ _ hbad hstep => ?_) ls w hrun
    fun _ _ _ _ _ => trivial
  · obtain ⟨hs, hc⟩ := step_callers h.2.1 h.2.2 hstep
    exact ⟨step_paused h.1 h.2.2 hclean hstep, hs, hc⟩
  · exact start_breaks (by simpa using hbad) hstep

/-- A torrent finishes, and is asked for its checkpoint and its pieces while it completes. -/
def pausedRun : List Step :=
  [.call sampleEnvironment 0 (.add sampleRequest),
    .call sampleEnvironment 0 (.start "a"),
    .alert sampleEnvironment ⟨1, .torrentFinished⟩,
    .call sampleEnvironment 1 (.setPiecePriority "a" 0 7),
    .alert sampleEnvironment ⟨1, .cacheFlushed 10⟩]

theorem pausedRun_stays_paused : Lts.EachState step CompletingPaused {} pausedRun := by
  have hcheck : Lts.checkEachStep step (fun w l => !w.startsCompleting l) {} pausedRun = true := by
    decide +kernel
  have hexec : Lts.exec step {} pausedRun = some (after pausedRun) := exec_after (by decide +kernel)
  refine (completing_paused_iff hexec).mpr ?_
  exact (Lts.eachStep_of_check hcheck).mono fun w l h => by simpa using h

/-- A torrent is started while it completes. -/
def startedRun : List Step :=
  [.call sampleEnvironment 0 (.add sampleRequest),
    .alert sampleEnvironment ⟨1, .torrentFinished⟩,
    .call sampleEnvironment 1 (.start "a")]

/-- It downloads and seeds while its completion is under way. -/
theorem startedRun_resumes :
    Lts.exec step {} startedRun = some (after startedRun) ∧
      ¬ Lts.EachState step CompletingPaused {} startedRun := by
  have hexec : Lts.exec step {} startedRun = some (after startedRun) := exec_after (by decide +kernel)
  have hprefix : Lts.exec step {} (startedRun.take 2) = some (after (startedRun.take 2)) :=
    exec_after (by decide +kernel)
  refine ⟨hexec, fun h => ?_⟩
  have hbad : (after (startedRun.take 2)).startsCompleting
      (.call sampleEnvironment 1 (.start "a")) = true := by decide +kernel
  have hstep : (after (startedRun.take 2)).step (.call sampleEnvironment 1 (.start "a")) =
      some (after startedRun) := by
    obtain ⟨w, hw, hstep⟩ := Lts.exec_snoc_eq_some.mp
      (show Lts.exec step {} (startedRun.take 2 ++ [.call sampleEnvironment 1 (.start "a")]) = _
        from hexec)
    rw [after, hw]
    exact hstep
  exact start_breaks hbad hstep (h startedRun _ (List.prefix_refl _) hexec)

end World

end LibtorrentKit
