/-
  Removing a torrent together with its files.

  Only `ltkit_session_remove` ever asks libtorrent to delete files; every other way in which a
  torrent leaves the engine keeps them (`step_keepsFiles`). A job that has stopped is no longer
  in the engine: `ltkit_session_remove` then reports success and asks nothing.

  `Removals` is the session with, for each job, the removals that were asked for on its behalf
  since it was added. `remove_honoured_iff`: a successful removal has done as it was told
  exactly when it was not to delete the files of a stopped job.
-/
import LibtorrentKit.Session.CompletionSafety

namespace LibtorrentKit

open Session

/-! ## Deletions -/

/-- The actions delete no files. -/
def KeepsFiles (actions : List Action) : Prop := ∀ h, .command (.removeTorrent h true) ∉ actions

/-- libtorrent is asked to remove a torrent with its files. -/
def IsDeletion (e : Entry) : Prop := ∃ h, e = .command (.removeTorrent h true)

theorem Tuning.keepsFiles {actions : List Action} (h : Tuning actions) : KeepsFiles actions := by
  intro handle ha
  obtain ⟨c, hc, hplain⟩ := h _ ha
  obtain rfl := Action.command.inj hc
  cases hplain

theorem KeepsFiles.append {xs ys : List Action} (hx : KeepsFiles xs) (hy : KeepsFiles ys) :
    KeepsFiles (xs ++ ys) := by
  intro h ha
  rcases List.mem_append.mp ha with ha | ha
  · exact hx h ha
  · exact hy h ha

theorem KeepsFiles.cons {a : Action} {actions : List Action}
    (ha : ∀ h, a ≠ .command (.removeTorrent h true)) (hactions : KeepsFiles actions) :
    KeepsFiles (a :: actions) := by
  intro h hmem
  rcases List.mem_cons.mp hmem with heq | hmem
  · exact ha h heq.symm
  · exact hactions h hmem

theorem startWaitingCompletion_keepsFiles (value : Job) :
    KeepsFiles (startWaitingCompletion value).2 := by
  rcases startWaitingCompletion_cases value with ⟨heq, _⟩ | ⟨_, _, _, heq⟩ <;> rw [heq] <;>
    simp [KeepsFiles]

theorem Session.Work.keepsFiles {slot closing : Prop} {env : Environment} {value : Job}
    {worked : Job × List Action} (h : Work slot closing env value worked) :
    KeepsFiles worked.2 := by
  cases h with
  | select hselects htuning => exact htuning.keepsFiles
  | reject => simp [KeepsFiles]
  | begin hslot flush =>
      rw [beginCheckpoint_eq]
      intro h
      cases flush <;> simp
  | abandon hslot hactive =>
      unfold abandonCheckpoint
      split
      · exact startWaitingCompletion_keepsFiles _
      · simp [KeepsFiles]
  | finish hslot hactive hdone => exact startWaitingCompletion_keepsFiles _

theorem FinishEnd.keepsFiles {env : Environment} {id : String} {value : Job} {success : Bool}
    {worked : Job × List Action} (h : FinishEnd env id value success worked) :
    KeepsFiles worked.2 := by
  cases h with
  | completion hcompletion hend => cases hend <;> simp [KeepsFiles]
  | answered hcompletion hactive => simp [KeepsFiles]
  | drained hcompletion hactive => exact startWaitingCompletion_keepsFiles _

theorem AlertEnd.keepsFiles {env : Environment} {id : String} {value : Job} {alert : Alert}
    {worked : Job × List Action} (h : AlertEnd env id value alert worked) :
    KeepsFiles worked.2 := by
  cases h with
  | metadata hkind hselects htuning => exact htuning.keepsFiles.append (by simp [KeepsFiles])
  | rejected hkind hselects htuning => exact htuning.keepsFiles.append (by simp [KeepsFiles])
  | completing hkind hcompletes hworked =>
      subst hworked
      exact .cons (by simp) (.cons (by simp) (startWaitingCompletion_keepsFiles _))
  | saved request data hkind hphase hend => exact .cons (by simp) hend.keepsFiles
  | saveFailed request hkind hphase hend => exact .cons (by simp) hend.keepsFiles
  | flushed | errorNoted | errorReported | status | ignored => simp [KeepsFiles]

theorem KeepsFiles.emits {id : String} {actions : List Action} {new : List Entry}
    (h : KeepsFiles actions) (hemits : Emits id actions new) : ∀ e ∈ new, ¬ IsDeletion e := by
  rintro e he ⟨handle, rfl⟩
  rcases emits_mem hemits he with ⟨a, ha, hae⟩ | ⟨_, _, heq⟩
  · cases a <;> simp only [actionEntry, Option.some.injEq, reduceCtorEq] at hae
    obtain rfl := Entry.command.inj hae
    exact h handle ha
  · cases heq

namespace Session

variable {slot : String → Prop} {s s' : Session}

theorem Move.keepsFiles (h : Move slot s s') : Grown (¬ IsDeletion ·) s s' := by
  cases h with
  | error e => exact .same rfl
  | wake => exact .same rfl
  | read env json hfront hpop =>
      obtain ⟨_, _, _, new, htrace, hnew⟩ := popEvent_spec hpop
      refine ⟨new, htrace, ?_⟩
      rintro e he ⟨h, rfl⟩
      obtain ⟨id, hid⟩ := hnew _ he
      cases hid
  | work env id hvalue hwork hupdate =>
      obtain ⟨new, hu⟩ := update_spec hupdate
      exact ⟨new, hu.trace, hwork.keepsFiles.emits hu.emits⟩

theorem Moves.keepsFiles (h : Moves slot s s') : Grown (¬ IsDeletion ·) s s' := by
  induction h with
  | refl => exact .same rfl
  | tail _ hmove ih => exact ih.trans hmove.keepsFiles

theorem insertJob_keepsFiles {env : Environment} {id : String} {params : AddTorrentParams}
    {value : Job} (h : s.insertJob env id params value = some s') :
    Grown (¬ IsDeletion ·) s s' := by
  obtain ⟨_, _, _, _, rest, htrace, hrest⟩ := insertJob_spec h
  refine ⟨_, htrace, ?_⟩
  rintro e he ⟨h, rfl⟩
  rcases List.mem_cons.mp he with heq | he
  · cases heq
  · rcases List.mem_cons.mp he with heq | he
    · cases heq
    · cases hrest _ he

theorem handleAlert_keepsFiles {env : Environment} {alert : Alert}
    (h : s.handleAlert env alert = some s') : Grown (¬ IsDeletion ·) s s' := by
  have halert : ∀ o, Grown (¬ IsDeletion ·) s (s.record (.alert o alert)) := fun o =>
    .record (by rintro ⟨_, h⟩; cases h)
  rcases handleAlert_cases h with rfl | ⟨id, value, _, _, _, hupdate⟩
  · exact halert none
  · obtain ⟨new, hu⟩ := update_spec hupdate
    exact (halert (some id)).trans
      ⟨new, hu.trace, (onAlert_end env id value alert).keepsFiles.emits hu.emits⟩

/-- A removal that finds a job which no caller waits for. -/
theorem remove_found {id : String} {value : Job} (deleteFiles : Bool)
    (hvalue : s.jobs.lookup id = some value) (hactive : value.checkpoint.active = false) :
    (s.ltkitSessionRemove id deleteFiles).1.jobs = s.jobs.erase id ∧
      (s.ltkitSessionRemove id deleteFiles).1.trace = s.trace ++
        if value.stopped then [] else [.command (.removeTorrent value.handle deleteFiles)] := by
  refine ⟨remove_jobs hvalue hactive, ?_⟩
  simp only [ltkitSessionRemove, hvalue, hactive, Bool.false_eq_true, if_false]
  split
  · exact (List.append_nil _).symm
  · rfl

theorem remove_ok {id : String} {value : Job} {deleteFiles : Bool}
    (hvalue : s.jobs.lookup id = some value)
    (hok : (s.ltkitSessionRemove id deleteFiles).2.code = .ok) :
    value.checkpoint.active = false := by
  cases hactive : value.checkpoint.active with
  | false => rfl
  | true =>
      simp only [ltkitSessionRemove, hvalue, hactive, if_true] at hok
      cases hok

/-- A call that is not the removal of a job with its files deletes none. -/
theorem enter_keepsFiles {env : Environment} {api : Api} {res : Session × Option Response}
    (h : s.enter env api = some res) :
    Grown (¬ IsDeletion ·) s res.1 ∨ ∃ id value, api = .remove id true ∧
      s.jobs.lookup id = some value ∧ value.checkpoint.active = false := by
  cases api with
  | add request =>
      obtain ⟨r, hr, rfl⟩ := Option.map_eq_some_iff.mp h
      rcases add_inserts hr with ⟨code, m, _, rfl⟩ | ⟨_, _, _, _, _, _, _, hinsert, _⟩
      · exact Or.inl (.same rfl)
      · exact Or.inl (insertJob_keepsFiles hinsert)
  | remove id deleteFiles =>
      obtain rfl := Option.some.inj h
      show Grown _ s (s.ltkitSessionRemove id deleteFiles).1 ∨ _
      cases hvalue : s.jobs.lookup id with
      | none =>
          simp only [ltkitSessionRemove, hvalue]
          exact Or.inl (.same rfl)
      | some value =>
          cases hactive : value.checkpoint.active with
          | true =>
              simp only [ltkitSessionRemove, hvalue, hactive, if_true]
              exact Or.inl (.same rfl)
          | false =>
              cases deleteFiles with
              | true => exact Or.inr ⟨id, value, rfl, hvalue, hactive⟩
              | false =>
                  refine Or.inl ⟨_, (remove_found false hvalue hactive).2, ?_⟩
                  rintro e he ⟨h, rfl⟩
                  cases hstopped : value.stopped <;> simp [hstopped] at he
  | _ => exact Or.inl (enter_moves_inside (fun _ => True) (by simp) (by simp) (by simp) h).keepsFiles

end Session

namespace World

variable {w w' : World}

/-- Only the removal of a job deletes files. -/
theorem step_keepsFiles {l : Step} (hc : w.Callers) (h : w.step l = some w') :
    Grown (¬ IsDeletion ·) w.session w'.session ∨
      ∃ env c id value, l = .call env c (.remove id true) ∧
        w.session.jobs.lookup id = some value ∧ value.checkpoint.active = false := by
  have hcalled : ∀ {s : Session} c api, Grown (¬ IsDeletion ·) s (s.record (.called c api)) :=
    fun c api => .record (by rintro ⟨_, h⟩; cases h)
  have hreturned : ∀ {s : Session} c api response,
      Grown (¬ IsDeletion ·) s (s.record (.returned c api response)) :=
    fun c api response => .record (by rintro ⟨_, h⟩; cases h)
  cases l with
  | alert env alert =>
      simp only [step, Option.ite_none_left_eq_some, Option.map_eq_some_iff] at h
      obtain ⟨_, s, hs, rfl⟩ := h
      exact Or.inl (handleAlert_keepsFiles hs)
  | destroy =>
      obtain rfl := Option.some.inj h
      exact Or.inl (.same rfl)
  | call env c api =>
      simp only [step, Option.ite_none_left_eq_some, Option.map_eq_some_iff] at h
      obtain ⟨_, res, hres, rfl⟩ := h
      rcases enter_keepsFiles hres with hkeeps | ⟨id, value, rfl, hvalue, hactive⟩
      · refine Or.inl ?_
        cases hr : res.2 with
        | some response => exact ((hcalled c api).trans hkeeps).trans (hreturned c api response)
        | none => exact (hcalled c api).trans hkeeps
      · exact Or.inr ⟨env, c, id, value, rfl, hvalue, hactive⟩
  | resume env c =>
      obtain ⟨wait, res, hwait, hres, rfl⟩ := step_resume h
      have hm := hc.resumed hwait hres
      exact Or.inl (hm.keepsFiles.trans (hreturned c wait.api res.2))

/-- What a removal that finds its job does to the session. -/
theorem step_remove {env : Environment} {c : CallId} {id : String} {value : Job}
    {deleteFiles : Bool} (hvalue : w.session.jobs.lookup id = some value)
    (hactive : value.checkpoint.active = false)
    (h : w.step (.call env c (.remove id deleteFiles)) = some w') :
    w'.session.jobs = w.session.jobs.erase id ∧ ∃ response,
      w'.session.trace = w.session.trace ++ ([.called c (.remove id deleteFiles)] ++
        (if value.stopped then [] else [.command (.removeTorrent value.handle deleteFiles)]) ++
        [.returned c (.remove id deleteFiles) response]) := by
  simp only [step, Option.ite_none_left_eq_some, Option.map_eq_some_iff] at h
  obtain ⟨_, res, hres, rfl⟩ := h
  obtain rfl := Option.some.inj hres
  obtain ⟨hjobs, htrace⟩ := @remove_found (w.session.record (.called c (.remove id deleteFiles)))
    id value deleteFiles hvalue hactive
  refine ⟨hjobs, ((w.session.record (.called c (.remove id deleteFiles))).ltkitSessionRemove id
    deleteFiles).2, ?_⟩
  show (ltkitSessionRemove _ id deleteFiles).1.trace ++ [_] = _
  rw [htrace, record_trace]
  simp only [List.append_assoc]

end World

/-! ## What was asked for each job -/

/-- The job that a call works on. -/
def Api.job : Api → Option String
  | .add request => some request.identifier
  | .metadata id _ => some id
  | .selectFiles id _ _ => some id
  | .setFilePriority id _ _ => some id
  | .setPiecePriority id _ _ => some id
  | .start id => some id
  | .pause id => some id
  | .status id => some id
  | .pieces id => some id
  | .pieceCompletion id => some id
  | .updateStreamingWindow id _ _ _ _ _ _ => some id
  | .clearStreamingWindow id => some id
  | .checkpoint id _ _ => some id
  | .remove id _ => some id
  | .nextEvent _ => none
  | .takeLastError => none
  | .wake => none

/-- The job that a step works on. -/
def World.jobOf (w : World) : Step → Option String
  | .alert env alert => w.session.idFor env alert.handle
  | .call _ _ api => api.job
  | .resume _ c => (w.calls c).bind fun wait => wait.api.job
  | .destroy => none

/-- The removals among entries of the trace, each with its delete flag. -/
def removalsIn (entries : List Entry) : List (Handle × Bool) :=
  entries.filterMap fun
    | .command (.removeTorrent handle deleteFiles) => some (handle, deleteFiles)
    | _ => none

/-- The session, and what libtorrent was asked to remove on behalf of each job since the job
    was added. -/
structure Removals where
  world : World := {}
  asked : String → List (Handle × Bool) := fun _ => []

namespace Removals

def step (v : Removals) (l : Step) : Option Removals :=
  (v.world.step l).map fun w =>
    { world := w
      asked := fun id =>
        if (v.world.session.jobs.lookup id).isNone then []
        else if v.world.jobOf l = some id then
          v.asked id ++ removalsIn (w.session.trace.drop v.world.session.trace.length)
        else v.asked id }

/-- A removal was done as it was told: the files are deleted, or nothing was ever asked that
    deletes them. -/
structure Honoured (handle : Handle) (deleteFiles : Bool) (asked : List (Handle × Bool)) :
    Prop where
  deleted : deleteFiles = true → (handle, true) ∈ asked
  kept : deleteFiles = false → ∀ h, (h, true) ∉ asked

theorem mem_removalsIn {entries : List Entry} {h : Handle} {deleteFiles : Bool} :
    (h, deleteFiles) ∈ removalsIn entries ↔ .command (.removeTorrent h deleteFiles) ∈ entries := by
  unfold removalsIn
  rw [List.mem_filterMap]
  constructor
  · rintro ⟨e, he, heq⟩
    split at heq
    · cases heq
      exact he
    · cases heq
  · intro he
    exact ⟨_, he, rfl⟩

theorem step_world {v : Removals} {l : Step} {w : World} (h : v.world.step l = some w) :
    ∃ v', v.step l = some v' ∧ v'.world = w := by
  unfold step
  rw [h]
  exact ⟨_, rfl, rfl⟩

/-- Every run of the session is one with its removals. -/
theorem exec_world {ls : List Step} {w : World} (h : Lts.exec World.step {} ls = some w) :
    ∃ v, Lts.exec step {} ls = some v ∧ v.world = w := by
  induction ls using List.reverseRecOn generalizing w with
  | nil => exact ⟨{}, rfl, Option.some.inj h⟩
  | append_singleton ls l ih =>
      obtain ⟨t, ht, htl⟩ := Lts.exec_snoc_eq_some.mp h
      obtain ⟨v, hv, rfl⟩ := ih ht
      obtain ⟨v', hv', hw⟩ := step_world htl
      exact ⟨v', Lts.exec_snoc_eq_some.mpr ⟨v, hv, hv'⟩, hw⟩

/-- As long as a job exists, no deletion was asked for on its behalf. -/
def Kept (v : Removals) : Prop :=
  ∀ id, (v.world.session.jobs.lookup id).isSome = true → ∀ h, (h, true) ∉ v.asked id

theorem Kept.step {v v' : Removals} {l : Step} (hk : v.Kept) (hc : v.world.Callers)
    (h : v.step l = some v') : v'.Kept := by
  obtain ⟨w', hw', rfl⟩ := Option.map_eq_some_iff.mp h
  intro id hid handle hmem
  dsimp only at hid hmem
  split at hmem
  · cases hmem
  · next hbefore =>
      have hsome : (v.world.session.jobs.lookup id).isSome = true := by
        simpa [← Option.isSome_iff_ne_none] using hbefore
      split at hmem
      · next hjob =>
          rcases List.mem_append.mp hmem with hmem | hmem
          · exact hk id hsome handle hmem
          · rcases World.step_keepsFiles hc hw' with ⟨new, htrace, hnew⟩ |
              ⟨env, c, i, value, rfl, hvalue, hactive⟩
            · rw [htrace, List.drop_left, mem_removalsIn] at hmem
              exact hnew _ hmem ⟨handle, rfl⟩
            · -- the removal has ended the life of its job
              obtain rfl : i = id := Option.some.inj hjob
              rw [(World.step_remove hvalue hactive hw').1] at hid
              simp at hid
      · exact hk id hsome handle hmem

theorem kept_of_run {ls : List Step} {v : Removals} (h : Lts.exec step {} ls = some v) :
    v.Kept := by
  have hinv : (v.world.session.Slots ∧ v.world.Callers) ∧ v.Kept := by
    refine Lts.exec_invariant'
      (fun v : Removals => (v.world.session.Slots ∧ v.world.Callers) ∧ v.Kept)
      ⟨World.run_callers (@Lts.exec_nil _ _ World.step ({} : World)), fun id hid => ?_⟩
      (fun v l v' hv hstep => ?_) ls v h
    · simp at hid
    · obtain ⟨w', hw', hv'⟩ := Option.map_eq_some_iff.mp hstep
      refine ⟨?_, hv.2.step hv.1.2 hstep⟩
      rw [← hv']
      exact World.step_callers hv.1.1 hv.1.2 hw'
  exact hinv.2

/-- In every run a removal that finds its job and succeeds was done as it was told, exactly
    when it was not to delete the files of a job that had stopped. -/
theorem remove_honoured_iff {ls : List Step} {w w' : World} {env : Environment} {c : CallId}
    {id : String} {value : Job} {deleteFiles : Bool}
    (hrun : Lts.exec World.step {} ls = some w) (hvalue : w.session.jobs.lookup id = some value)
    (hok : (w.session.ltkitSessionRemove id deleteFiles).2.code = .ok)
    (hstep : w.step (.call env c (.remove id deleteFiles)) = some w') :
    ∃ v, Lts.exec step {} (ls ++ [.call env c (.remove id deleteFiles)]) = some v ∧
      v.world = w' ∧
      (Honoured value.handle deleteFiles (v.asked id) ↔
        ¬ (deleteFiles = true ∧ value.stopped = true)) := by
  obtain ⟨v, hv, rfl⟩ := exec_world hrun
  obtain ⟨v', hv', hw'⟩ := step_world hstep
  refine ⟨v', Lts.exec_snoc_eq_some.mpr ⟨v, hv, hv'⟩, hw', ?_⟩
  have hkept : ∀ h, (h, true) ∉ v.asked id := by
    refine kept_of_run hv id ?_
    rw [hvalue]
    rfl
  obtain ⟨_, response, htrace⟩ := World.step_remove hvalue (remove_ok hvalue hok) hstep
  have hasked : v'.asked id = v.asked id ++
      if value.stopped then [] else [(value.handle, deleteFiles)] := by
    obtain ⟨w₀, hw₀, rfl⟩ := Option.map_eq_some_iff.mp hv'
    obtain rfl := Option.some.inj (hstep.symm.trans hw₀)
    show (if (v.world.session.jobs.lookup id).isNone then _ else _) = _
    rw [hvalue, if_neg (by simp), if_pos (show v.world.jobOf _ = some id from rfl), htrace,
      List.drop_left]
    cases value.stopped <;> rfl
  rw [hasked]
  cases hstopped : value.stopped with
  | true =>
      simp only [if_true, List.append_nil, and_true]
      constructor
      · rintro h rfl
        exact hkept _ (h.deleted rfl)
      · intro h
        exact ⟨fun hd => absurd hd h, fun _ => hkept⟩
  | false =>
      refine iff_of_true ⟨?_, ?_⟩ (by simp)
      · rintro rfl
        simp
      · rintro rfl h hmem
        rcases List.mem_append.mp hmem with hmem | hmem
        · exact hkept h hmem
        · simp at hmem

end Removals

/-! ## A torrent removed with its files -/

/-- The removal of the torrent of `sampleRequest`, with its files. -/
def deletion : Step := .call sampleEnvironment 1 (.remove "a" true)

/-- A torrent that is still loading is removed with its files. -/
theorem deletion_honoured :
    ∃ v, Lts.exec Removals.step {}
        ([.call sampleEnvironment 0 (.add sampleRequest)] ++ [deletion]) = some v ∧
      Removals.Honoured 1 true (v.asked "a") := by
  have hrun := @World.exec_after [.call sampleEnvironment 0 (.add sampleRequest)]
    (by decide +kernel)
  have hvalue : ((World.after [.call sampleEnvironment 0 (.add sampleRequest)]).session.jobs.lookup
      "a").any (fun value => decide (value.handle = 1 ∧ value.stopped = false)) = true := by
    decide +kernel
  obtain ⟨value, hlookup, hjob⟩ := (Option.any_eq_true _ _).mp hvalue
  obtain ⟨hhandle, hstopped⟩ := of_decide_eq_true hjob
  obtain ⟨w', hstep⟩ := Option.isSome_iff_exists.mp
    (show ((World.after [.call sampleEnvironment 0 (.add sampleRequest)]).step deletion).isSome = true
      by decide +kernel)
  obtain ⟨v, hv, _, hiff⟩ := Removals.remove_honoured_iff hrun hlookup (by decide +kernel) hstep
  rw [hhandle] at hiff
  exact ⟨v, hv, hiff.mpr (by simp [hstopped])⟩

/-- After its completion the removal reports success, and libtorrent was never asked to delete
    anything. -/
theorem deletion_dropped :
    ∃ value v, (World.after World.completedRun).session.jobs.lookup "a" = some value ∧
      value.stopped = true ∧
      ((World.after World.completedRun).session.ltkitSessionRemove "a" true).2.code = .ok ∧
      Lts.exec Removals.step {} (World.completedRun ++ [deletion]) = some v ∧
      v.asked "a" = [(1, false)] ∧ ¬ Removals.Honoured value.handle true (v.asked "a") := by
  have hvalue : ((World.after World.completedRun).session.jobs.lookup "a").any
      (fun value => value.stopped) = true := by decide +kernel
  obtain ⟨value, hlookup, hstopped⟩ := (Option.any_eq_true _ _).mp hvalue
  have hasked : (Lts.exec Removals.step {} (World.completedRun ++ [deletion])).any
      (fun v => decide (v.asked "a" = [(1, false)])) = true := by decide +kernel
  obtain ⟨v, hv, hasked⟩ := (Option.any_eq_true _ _).mp hasked
  refine ⟨value, v, hlookup, hstopped, by decide +kernel, hv, of_decide_eq_true hasked, fun h => ?_⟩
  have hdeleted := h.deleted rfl
  rw [of_decide_eq_true hasked] at hdeleted
  simp at hdeleted

end LibtorrentKit
