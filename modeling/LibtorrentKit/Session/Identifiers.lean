/-
  Which torrents a session has.

  A call that succeeds has an `Effect` when it adds a torrent, removes one, or reads its metadata.
  The trace holds the effects in the order in which the native session has executed the calls.
  `Accounted`: a torrent is in the session exactly when the newest effect that changes this is an
  addition, and metadata are read only while the torrent is there.
-/
import LibtorrentKit.Lib.Acks
import LibtorrentKit.Session.Results

namespace LibtorrentKit

open Acks

/-! ## Effects -/

/-- What a call does to the torrents of the session, or learns of them. -/
inductive Effect where
  | added (id : String)
  | removed (id : String)
  | read (id : String) (json : String)
  deriving DecidableEq, Repr

namespace Effect

/-- The effect of a call that has returned. -/
def of (api : Api) (response : Response) : Option Effect :=
  if response.code = .ok then
    match api, response.output with
    | .add request, _ => some (.added request.identifier)
    | .remove id _, _ => some (.removed id)
    | .metadata id _, .text json => some (.read id json)
    | _, _ => none
  else none

/-- The effect decides whether `id` is in the session. -/
def changes (id : String) : Effect → Bool
  | .added i => decide (i = id)
  | .removed i => decide (i = id)
  | .read _ _ => false

theorem of_fail {api : Api} {response : Response} (h : response.code ≠ .ok) :
    of api response = none := if_neg h

/-- What changes `id` adds it or removes it. -/
theorem of_changes {id : String} {e : Effect} (h : e.changes id = true) :
    e = .added id ∨ e = .removed id := by
  cases e with
  | added i => exact Or.inl (congrArg added (of_decide_eq_true h))
  | removed i => exact Or.inr (congrArg removed (of_decide_eq_true h))
  | read i json => cases h

@[simp] theorem added_changes (id : String) : (added id).changes id = true := decide_eq_true rfl

@[simp] theorem removed_changes (id : String) : (removed id).changes id = true :=
  decide_eq_true rfl

end Effect

/-- The thread that returns, and the effect of its call. -/
def Entry.effect : Entry → Option (CallId × Effect)
  | .returned c api response => (Effect.of api response).map fun e => (c, e)
  | _ => none

/-! ## The jobs -/

namespace Session

variable {slot : String → Prop} {s s' : Session}

/-- The effects of the calls so far. -/
def effects (s : Session) : List (CallId × Effect) := s.trace.filterMap Entry.effect

/-- The same torrents. -/
def SameJobs (s s' : Session) : Prop := ∀ id, id ∈ s'.jobs ↔ id ∈ s.jobs

theorem SameJobs.trans {t : Session} (h : SameJobs s t) (h' : SameJobs t s') : SameJobs s s' :=
  fun id => (h' id).trans (h id)

theorem update_sameJobs {env : Environment} {id : String} {value : Job}
    {worked : Job × List Action} (hvalue : s.jobs.lookup id = some value)
    (h : s.update env id worked = some s') : SameJobs s s' := by
  obtain ⟨new, hu⟩ := update_spec h
  have hin : id ∈ s.jobs := Finmap.mem_of_lookup_eq_some hvalue
  intro i
  rw [hu.jobs, Finmap.mem_insert]
  exact ⟨fun hi => hi.elim (fun heq => heq ▸ hin) (fun hi => hi), Or.inr⟩

theorem Move.sameJobs (h : Move slot s s') : SameJobs s s' := by
  cases h with
  | error e => exact fun _ => Iff.rfl
  | wake => exact fun _ => Iff.rfl
  | read env json hfront hpop => exact fun id => by rw [popEvent_jobs hpop]
  | work env id hvalue hwork hupdate => exact update_sameJobs hvalue hupdate

theorem Moves.sameJobs (h : Moves slot s s') : SameJobs s s' := by
  induction h with
  | refl => exact fun _ => Iff.rfl
  | tail _ hmove ih => exact ih.trans hmove.sameJobs

theorem handleAlert_sameJobs {env : Environment} {alert : Alert}
    (h : s.handleAlert env alert = some s') : SameJobs s s' := by
  rcases handleAlert_cases h with rfl | ⟨id, value, hvalue, _, _, hupdate⟩
  · exact fun _ => Iff.rfl
  · exact @update_sameJobs (s.record (.alert (some id) alert)) _ _ _ _ _ hvalue hupdate

/-- What a call that has returned has done to the torrents. -/
def Applied (s s' : Session) : Option Effect → Prop
  | none => SameJobs s s'
  | some (.added id) => id ∉ s.jobs ∧ ∀ i, i ∈ s'.jobs ↔ i = id ∨ i ∈ s.jobs
  | some (.removed id) => ∀ i, i ∈ s'.jobs ↔ i ≠ id ∧ i ∈ s.jobs
  | some (.read id _) => id ∈ s.jobs ∧ SameJobs s s'

theorem add_applied {env : Environment} {r : AddRequest} {res : Session × Response}
    (h : s.ltkitSessionAdd env r = some res) : Applied s res.1 (Effect.of (.add r) res.2) := by
  rcases add_inserts h with ⟨code, m, hcode, rfl⟩ | ⟨_, _, _, _, hfree, _, _, hinsert, hok⟩
  · rw [Effect.of_fail hcode]
    exact fun _ => Iff.rfl
  · rw [hok]
    refine ⟨hfree, fun i => ?_⟩
    rw [(insertJob_spec hinsert).1, Finmap.mem_insert]

theorem remove_applied (s : Session) (id : String) (deleteFiles : Bool) :
    Applied s (s.ltkitSessionRemove id deleteFiles).1
      (Effect.of (.remove id deleteFiles) (s.ltkitSessionRemove id deleteFiles).2) := by
  cases hvalue : s.jobs.lookup id with
  | none =>
      have habsent : id ∉ s.jobs := Finmap.lookup_eq_none.mp hvalue
      simp only [ltkitSessionRemove, hvalue]
      intro i
      exact ⟨fun hi => ⟨fun heq => habsent (heq ▸ hi), hi⟩, And.right⟩
  | some value =>
      cases hactive : value.checkpoint.active with
      | true =>
          simp only [ltkitSessionRemove, hvalue, hactive, if_true]
          rw [Effect.of_fail Code.noConfusion]
          exact fun _ => Iff.rfl
      | false =>
          have hjobs := @remove_jobs s id value deleteFiles hvalue hactive
          have hok : (s.ltkitSessionRemove id deleteFiles).2 = { code := .ok } := by
            simp only [ltkitSessionRemove, hvalue, hactive, Bool.false_eq_true, if_false]
          rw [hok]
          intro i
          rw [hjobs, Finmap.mem_erase]

/-- Metadata are never read of a torrent that is not there. -/
theorem metadata_absent {env : Environment} {id : String} {timeoutMs : Int}
    {response : Response} (habsent : s.jobs.lookup id = none)
    (h : s.ltkitSessionMetadata env id timeoutMs = some (s', some response)) :
    response.code ≠ .ok := by
  unfold ltkitSessionMetadata at h
  rw [habsent] at h
  split at h
  · cases h
    exact Code.noConfusion
  · cases h
    exact Code.noConfusion

theorem resumeMetadata_absent {env : Environment} {id : String} {generation : Nat}
    {response : Response} (habsent : s.jobs.lookup id = none)
    (h : s.resumeMetadata env id generation = some (s', response)) : response.code ≠ .ok := by
  unfold resumeMetadata metadataResult at h
  rw [habsent] at h
  split at h
  · cases h
    decide
  · split at h
    · cases h
      decide
    · cases h
      decide

/-- A call that neither adds nor removes, and that succeeds only while its torrent is there. -/
theorem applied_of_sameJobs {api : Api} {response : Response} (hsame : SameJobs s s')
    (hadd : ∀ request, api ≠ .add request) (hremove : ∀ id deleteFiles, api ≠ .remove id deleteFiles)
    (hread : ∀ id timeoutMs, api = .metadata id timeoutMs → s.jobs.lookup id = none →
      response.code ≠ .ok) : Applied s s' (Effect.of api response) := by
  cases api with
  | add request => exact absurd rfl (hadd request)
  | remove id deleteFiles => exact absurd rfl (hremove id deleteFiles)
  | metadata id timeoutMs =>
      by_cases hok : response.code = .ok
      · have hin : id ∈ s.jobs := by
          by_contra habsent
          exact hread id timeoutMs rfl (Finmap.lookup_eq_none.mpr habsent) hok
        obtain ⟨code, output⟩ := response
        obtain rfl : code = .ok := hok
        cases output with
        | text json => exact ⟨hin, hsame⟩
        | _ => exact hsame
      · rw [Effect.of_fail hok]
        exact hsame
  | _ =>
      unfold Effect.of
      split
      · exact hsame
      · exact hsame

theorem enter_applied_inside {env : Environment} {api : Api} {res : Session × Option Response}
    (hadd : ∀ request, api ≠ .add request) (hremove : ∀ id deleteFiles, api ≠ .remove id deleteFiles)
    (h : s.enter env api = some res) : Applied s res.1 (res.2.bind (Effect.of api)) := by
  have hsame : SameJobs s res.1 :=
    (enter_moves_inside (fun _ => True) hadd hremove (fun _ _ => trivial) h).sameJobs
  obtain ⟨t, answer⟩ := res
  cases answer with
  | none => exact hsame
  | some response =>
      refine applied_of_sameJobs hsame hadd hremove ?_
      rintro id timeoutMs rfl habsent
      exact metadata_absent habsent h

/-- What a call has done to the torrents when it returns, or waits. -/
theorem enter_applied {env : Environment} {api : Api} {res : Session × Option Response}
    (h : s.enter env api = some res) : Applied s res.1 (res.2.bind (Effect.of api)) := by
  cases api with
  | add request =>
      obtain ⟨r, hr, rfl⟩ := Option.map_eq_some_iff.mp h
      exact add_applied hr
  | remove id deleteFiles =>
      obtain rfl := Option.some.inj h
      exact remove_applied s id deleteFiles
  | _ => exact enter_applied_inside (by simp) (by simp) h

/-- What a call that has waited has done when it returns. -/
theorem resume_applied {env : Environment} {generation : Nat} {api : Api}
    {res : Session × Response} (hactive : ∀ id, IsCheckpoint api id → s.activeAt id = true)
    (h : s.resume env generation api = some res) : Applied s res.1 (Effect.of api res.2) := by
  have hsame : SameJobs s res.1 :=
    (resume_moves (fun _ => True) (fun id hck => ⟨trivial, hactive id hck⟩) h).sameJobs
  refine applied_of_sameJobs hsame ?_ ?_ ?_
  · rintro request rfl
    cases h
  · rintro id deleteFiles rfl
    cases h
  · rintro id timeoutMs rfl habsent
    exact resumeMetadata_absent habsent h

/-! ## The trace -/

theorem effects_within (h : Within s s') : s'.effects = s.effects := by
  obtain ⟨new, htrace, hnew⟩ := h
  have hnone : new.filterMap Entry.effect = [] := by
    rw [List.filterMap_eq_nil_iff]
    intro e he
    have hcall := hnew e he
    cases e with
    | returned c api response => cases hcall
    | _ => rfl
  unfold effects
  rw [htrace, List.filterMap_append, hnone, List.append_nil]

theorem effects_record (s : Session) (e : Entry) :
    (s.record e).effects = s.effects ++ (Entry.effect e).toList := by
  unfold effects record
  rw [List.filterMap_append]
  cases h : Entry.effect e with
  | none => rw [List.filterMap_cons_none h]; rfl
  | some x => rw [List.filterMap_cons_some h]; rfl

end Session

namespace World

open Session

variable {w w' : World}

/-- The effect of a call, when it returns at once. -/
theorem call_effects {env : Environment} {c : CallId} {api : Api}
    {res : Session × Option Response}
    (henter : (w.session.record (.called c api)).enter env api = some res)
    (h : w.step (.call env c api) = some w') :
    w'.session.effects =
        w.session.effects ++ ((res.2.bind (Effect.of api)).map fun e => (c, e)).toList ∧
      Applied w.session w'.session (res.2.bind (Effect.of api)) := by
  have hbegan : (w.session.record (.called c api)).effects = w.session.effects := by
    rw [effects_record]
    exact List.append_nil _
  have heffects := (effects_within (enter_fromCall henter).within).trans hbegan
  have happlied := enter_applied henter
  simp only [step, Option.ite_none_left_eq_some, henter, Option.map_some, Option.some.injEq] at h
  obtain ⟨_, rfl⟩ := h
  cases hr : res.2 with
  | none =>
      rw [hr] at happlied
      exact ⟨heffects.trans (List.append_nil _).symm, happlied⟩
  | some response =>
      rw [hr] at happlied
      refine ⟨?_, happlied⟩
      show (res.1.record (.returned c api response)).effects = _
      rw [effects_record, heffects]
      rfl

/-- The effect of a call that has waited. -/
theorem resume_effects {env : Environment} {c : CallId} {wait : Wait} {res : Session × Response}
    (hc : w.Callers) (hwait : w.calls c = some wait)
    (hres : w.session.resume env wait.generation wait.api = some res)
    (h : w.step (.resume env c) = some w') :
    w'.session.effects =
        w.session.effects ++ ((Effect.of wait.api res.2).map fun e => (c, e)).toList ∧
      Applied w.session w'.session (Effect.of wait.api res.2) := by
  have hactive : ∀ id, IsCheckpoint wait.api id → w.session.activeAt id = true :=
    fun id hck => (hc.active id).mpr ⟨c, wait, hwait, hck⟩
  have hmoves := hc.resumed hwait hres
  have happlied := resume_applied hactive hres
  simp only [step, hwait, Option.ite_none_left_eq_some, hres, Option.map_some,
    Option.some.injEq] at h
  obtain ⟨_, rfl⟩ := h
  refine ⟨?_, happlied⟩
  show (res.1.record (.returned c wait.api res.2)).effects = _
  rw [effects_record, effects_within hmoves.fromCall.within]
  rfl

/-- Every step has at most one effect on the torrents, or learns of one. -/
theorem step_effects {l : Step} (hc : w.Callers) (h : w.step l = some w') :
    ∃ c e, w'.session.effects = w.session.effects ++ (e.map fun e => (c, e)).toList ∧
      Applied w.session w'.session e := by
  cases l with
  | alert env alert =>
      simp only [step, Option.ite_none_left_eq_some, Option.map_eq_some_iff] at h
      obtain ⟨_, s, hh, rfl⟩ := h
      refine ⟨0, none, ?_, handleAlert_sameJobs hh⟩
      exact (effects_within (handleAlert_within hh)).trans (List.append_nil _).symm
  | destroy =>
      obtain rfl := Option.some.inj h
      exact ⟨0, none, (List.append_nil _).symm, fun _ => Iff.rfl⟩
  | call env c api =>
      have hstep := h
      simp only [step, Option.ite_none_left_eq_some, Option.map_eq_some_iff] at h
      obtain ⟨_, res, hres, _⟩ := h
      exact ⟨c, _, call_effects hres hstep⟩
  | resume env c =>
      have hstep := h
      obtain ⟨wait, res, hwait, hres, -⟩ := step_resume h
      exact ⟨c, _, resume_effects hc hwait hres hstep⟩

/-! ## The account -/

/-- The effect can follow those before it. -/
def Possible (before : List Effect) : Effect → Prop
  | .added id => newest (Effect.changes id) before ≠ some (.added id)
  | .removed _ => True
  | .read id _ => newest (Effect.changes id) before = some (.added id)

/-- The effects say which torrents the session has. -/
structure Accounted (s : Session) : Prop where
  jobs : ∀ id, id ∈ s.jobs ↔
    newest (Effect.changes id) (s.effects.map Prod.snd) = some (.added id)
  possible : ∀ pre c e post, s.effects = pre ++ (c, e) :: post → Possible (pre.map Prod.snd) e

theorem Accounted.init : Accounted {} where
  jobs id := iff_of_false Finmap.notMem_empty (by simp [effects])
  possible pre c e post h := by simp [effects] at h

/-- A new effect agrees with the account. -/
theorem Accounted.applied {s s' : Session} (h : Accounted s) {c : CallId} {e : Option Effect}
    (heffects : s'.effects = s.effects ++ (e.map fun e => (c, e)).toList)
    (happlied : Applied s s' e) : Accounted s' := by
  cases e with
  | none =>
      rw [Option.map_none, Option.toList_none, List.append_nil] at heffects
      constructor
      · intro id
        rw [happlied id, h.jobs, heffects]
      · rw [heffects]
        exact h.possible
  | some e =>
      rw [Option.map_some, Option.toList_some] at heffects
      constructor
      · intro id
        rw [heffects, List.map_append, List.map_singleton, newest_concat]
        cases e with
        | added i =>
            obtain ⟨_, hjobs⟩ := happlied
            rw [hjobs, h.jobs]
            by_cases hi : i = id
            · simp [Effect.changes, hi]
            · simp [Effect.changes, hi, Ne.symm hi]
        | removed i =>
            rw [happlied id, h.jobs]
            by_cases hi : i = id
            · simp [Effect.changes, hi]
            · simp [Effect.changes, hi, Ne.symm hi]
        | read i json =>
            obtain ⟨_, hsame⟩ := happlied
            rw [hsame id, h.jobs]
            simp [Effect.changes]
      · intro pre d x post heq
        rw [heffects] at heq
        rcases List.eq_nil_or_concat post with rfl | ⟨post', y, rfl⟩
        · obtain ⟨rfl, hlast⟩ := List.append_inj' heq rfl
          obtain ⟨rfl, rfl⟩ := Prod.mk.inj (List.cons.inj hlast).1
          cases e with
          | added i => exact fun hin => happlied.1 ((h.jobs i).mpr hin)
          | removed i => trivial
          | read i json => exact (h.jobs i).mp happlied.1
        · rw [List.concat_eq_append, ← List.cons_append, ← List.append_assoc] at heq
          exact h.possible pre d x post' (List.append_inj' heq rfl).1

/-- After every run the effects say which torrents the session has. -/
theorem run_accounted {ls : List Step} (hrun : Lts.exec step {} ls = some w) :
    Accounted w.session := by
  have h0 : Slots {} ∧ Callers {} := run_callers (@Lts.exec_nil _ _ step {})
  refine (Lts.exec_invariant'
    (fun w : World => (w.session.Slots ∧ w.Callers) ∧ Accounted w.session)
    ⟨h0, .init⟩ (fun w l w' h hstep => ⟨step_callers h.1.1 h.1.2 hstep, ?_⟩) ls w hrun).2
  obtain ⟨c, e, heffects, happlied⟩ := step_effects h.1.2 hstep
  exact h.2.applied heffects happlied

end World

end LibtorrentKit
