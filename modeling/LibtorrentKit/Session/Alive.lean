/-
  What follows from the two maps being in step.

  Nothing that the alert thread or a call puts into the mailbox fails to find its torrent there, so
  every critical section runs to its end (`step_defined`). And a torrent that has been removed is
  kept out until its events have been read (`Kept`), and comes back without a past.
-/
import LibtorrentKit.Session.Tenures

namespace LibtorrentKit

open EventMailbox

/-- A call that may wait on the condition variable. -/
def Api.waits : Api → Bool
  | .metadata _ _ => true
  | .checkpoint _ _ _ => true
  | .nextEvent _ => true
  | _ => false

/-- What has to hold for a critical section to begin: a session that is not being destroyed for
the alert thread, a thread that is in no call, a thread that waits. -/
def World.Begins (w : World) : Step → Prop
  | .alert env _ => w.session.shuttingDown = false ∧ w.session.iteratedBy env = true
  | .call env c _ => w.calls c = none ∧ w.session.iteratedBy env = true
  | .resume env c => (w.calls c).isSome = true ∧ w.session.iteratedBy env = true
  | .destroy => True

namespace Session

variable {s : Session} {t : MailboxAudit} {env : Environment} {id : String}

/-! ## Every critical section runs to its end -/

theorem update_isSome {value : Job} (h : s.Audited t) (hvalue : s.jobs.lookup id = some value)
    (worked : Job × List Action) : (s.update env id worked).isSome = true := by
  obtain ⟨s', -, hs', -⟩ :=
    update_defined env worked h (Finmap.mem_of_lookup_eq_some hvalue)
  rw [hs', Option.isSome_some]

theorem handleAlert_isSome (h : s.Audited t) (env : Environment) (alert : Alert) :
    (s.handleAlert env alert).isSome = true := by
  unfold handleAlert
  split
  · rfl
  · next id value hrouted =>
    have hrecord : (s.record (.alert (some id) alert)).Audited t := h.same rfl fun _ => Iff.rfl
    exact update_isSome hrecord (routed_spec hrouted).1 _

theorem onActive_isSome (h : s.Audited t) (m : String) (body : Job → Job × List Action × Reply) :
    (s.onActive env id m body).isSome = true := by
  unfold onActive
  split
  · rfl
  · next value hvalue =>
    split
    · rfl
    · rw [Option.isSome_map]
      exact update_isSome h hvalue _

theorem add_isSome (h : s.Audited t) (r : AddRequest) :
    (s.ltkitSessionAdd env r).isSome = true := by
  unfold ltkitSessionAdd
  split
  · rfl
  · split
    · rfl
    · split
      · rfl
      · split
        · rfl
        · next hcan =>
          split
          · rfl
          · split
            · rfl
            · dsimp only
              split
              · rfl
              · split
                · rfl
                · rw [Option.isSome_map]
                  obtain ⟨u, -, hu, -⟩ := insertJob_defined env _ _ h (by simpa using hcan)
                  rw [hu, Option.isSome_some]

theorem metadataResult_isSome (h : s.Audited t) : (s.metadataResult env id).isSome = true := by
  unfold metadataResult
  split
  · rfl
  · next value hvalue =>
    split
    · rfl
    · split
      · rw [Option.isSome_map]
        exact update_isSome h hvalue _
      · rfl

theorem resumeMetadata_isSome (h : s.Audited t) (generation : Nat) :
    (s.resumeMetadata env id generation).isSome = true := by
  unfold resumeMetadata
  split
  · rfl
  · split
    · rfl
    · exact metadataResult_isSome h

theorem metadata_isSome (h : s.Audited t) (timeoutMs : Int) :
    (s.ltkitSessionMetadata env id timeoutMs).isSome = true := by
  unfold ltkitSessionMetadata
  split
  · rfl
  · split
    · rfl
    · split
      · rfl
      · split
        · rfl
        · split
          · rw [Option.isSome_map]
            exact metadataResult_isSome h
          · split
            · rw [Option.isSome_map]
              exact resumeMetadata_isSome h _
            · rfl

theorem resumeCheckpoint_isSome (h : s.Audited t) (generation : Nat) :
    (s.resumeCheckpoint env id generation).isSome = true := by
  unfold resumeCheckpoint
  dsimp only
  split
  · rfl
  · next value hvalue =>
    split
    · rw [Option.isSome_map]
      exact update_isSome h hvalue _
    · rw [Option.isSome_map]
      exact update_isSome h hvalue _

theorem checkpoint_isSome (h : s.Audited t) (flush : Bool) (timeoutMs : Int) :
    (s.ltkitSessionCheckpoint env id flush timeoutMs).isSome = true := by
  unfold ltkitSessionCheckpoint
  split
  · rfl
  · split
    · rfl
    · next value hvalue =>
      split
      · split <;> rfl
      · split
        · rfl
        · split
          · rfl
          · obtain ⟨u, t', hu, ht'⟩ := update_defined env (beginCheckpoint value flush) h
              (Finmap.mem_of_lookup_eq_some hvalue)
            rw [hu, Option.bind_some]
            split
            · rw [Option.isSome_map]
              exact resumeCheckpoint_isSome ht' _
            · rfl

theorem resumeNextEvent_isSome (h : s.Audited t) : (s.resumeNextEvent env).isSome = true := by
  unfold resumeNextEvent
  split
  · rfl
  · split
    · rfl
    · next json hfront =>
      split
      · rfl
      · obtain ⟨u, -, hu, -⟩ := popEvent_defined h hfront
        rw [hu, Option.map_some, Option.isSome_some]

theorem nextEvent_isSome (h : s.Audited t) (timeoutMs : Int) :
    (s.ltkitSessionNextEvent env timeoutMs).isSome = true := by
  unfold ltkitSessionNextEvent
  split
  · rfl
  · split
    · rw [Option.isSome_map]
      exact resumeNextEvent_isSome h
    · rfl

/-- A call up to its wait. -/
theorem enter_isSome (h : s.Audited t) (api : Api) : (s.enter env api).isSome = true := by
  have hret : ∀ {body : Option (Session × Response)}, body.isSome = true →
      (body.map returning).isSome = true := fun hbody => by rwa [Option.isSome_map]
  have hchecked : ∀ {p : Prop} [Decidable p] {response : Response}
      {body : Option (Session × Response)}, body.isSome = true →
      ((if p then some (s, response) else body).map returning).isSome = true := by
    intro p _ response body hbody
    split
    · rfl
    · exact hret hbody
  cases api with
  | add request => exact hret (add_isSome h request)
  | metadata id timeoutMs => exact metadata_isSome h timeoutMs
  | selectFiles id indexes primary => exact hchecked (onActive_isSome h _ _)
  | setFilePriority id fileIndex priority => exact hchecked (onActive_isSome h _ _)
  | setPiecePriority id pieceIndex priority => exact hchecked (onActive_isSome h _ _)
  | updateStreamingWindow id fileIndex byteOffset criticalBytes warmBytes rate edges =>
    exact hchecked (onActive_isSome h _ _)
  | start id | pause id | pieces id | pieceCompletion id | clearStreamingWindow id =>
    exact hret (onActive_isSome h _ _)
  | checkpoint id flush timeoutMs => exact checkpoint_isSome h flush timeoutMs
  | nextEvent timeoutMs => exact nextEvent_isSome h timeoutMs
  | status | remove | takeLastError | wake => rfl

/-- A call after its wait. -/
theorem resume_isSome {api : Api} (h : s.Audited t) (hwaits : api.waits = true)
    (generation : Nat) : (s.resume env generation api).isSome = true := by
  cases api with
  | metadata id timeoutMs => exact resumeMetadata_isSome h generation
  | checkpoint id flush timeoutMs => exact resumeCheckpoint_isSome h generation
  | nextEvent timeoutMs => exact resumeNextEvent_isSome h
  | _ => cases hwaits

/-- Only these calls wait. -/
theorem enter_waits {s' : Session} {api : Api} (h : s.enter env api = some (s', none)) :
    api.waits = true := by
  have hret : ∀ {x : Option (Session × Response)}, x.map returning ≠ some (s', none) := by
    intro x hx
    obtain ⟨r, -, hr⟩ := Option.map_eq_some_iff.mp hx
    cases hr
  cases api with
  | metadata | checkpoint | nextEvent => rfl
  | status | remove | takeLastError | wake => cases h
  | _ => exact absurd h hret

end Session

namespace World

theorem run_waits {ls : List Step} {w : World} (hrun : Lts.exec step {} ls = some w) {c : CallId}
    {wait : Wait} (hwait : w.calls c = some wait) : wait.api.waits = true := by
  have hinit : ∀ c wait, ({} : World).calls c = some wait → wait.api.waits = true :=
    fun c wait h => by cases h
  refine Lts.exec_invariant' (fun w : World => ∀ c wait, w.calls c = some wait →
    wait.api.waits = true) hinit (fun v l v' hv hstep => ?_) ls w hrun c wait hwait
  -- a call that begins to wait is one that may, and one that returns waits no more
  have hset : ∀ {d : CallId} {o : Option Wait}, (∀ wait, o = some wait → wait.api.waits = true) →
      ∀ c wait, Function.update v.calls d o c = some wait → wait.api.waits = true := by
    intro d o ho c wait hc
    by_cases hcd : c = d
    · rw [hcd, Function.update_self] at hc
      exact ho wait hc
    · rw [Function.update_of_ne hcd] at hc
      exact hv c wait hc
  cases l with
  | alert env alert =>
    simp only [step, Option.ite_none_left_eq_some, Option.map_eq_some_iff] at hstep
    obtain ⟨-, s, -, rfl⟩ := hstep
    exact hv
  | destroy =>
    cases hstep
    exact hv
  | call env d api =>
    simp only [step, Option.ite_none_left_eq_some, Option.map_eq_some_iff] at hstep
    obtain ⟨-, ⟨s, answer⟩, henter, rfl⟩ := hstep
    cases answer with
    | some response => exact hset (fun _ h => by cases h)
    | none =>
      refine hset fun wait h => ?_
      cases h
      exact Session.enter_waits henter
  | resume env d =>
    obtain ⟨wait, res, -, -, rfl⟩ := step_resume hstep
    exact hset (fun _ h => by cases h)

/-- A critical section that can begin ends: no mailbox operation in it fails. -/
theorem step_defined {ls : List Step} {w : World} (hrun : Lts.exec step {} ls = some w) {l : Step}
    (hl : w.Begins l) : (w.step l).isSome = true := by
  obtain ⟨t, ht⟩ := Session.run_audited hrun
  cases l with
  | alert env alert =>
    obtain ⟨hrunning, horder⟩ := hl
    simp only [step, hrunning, horder, Bool.not_true, Bool.or_self, Bool.false_eq_true, if_false,
      Option.isSome_map]
    exact Session.handleAlert_isSome ht env alert
  | call env c api =>
    obtain ⟨hfree, horder⟩ := hl
    have hrecord : (w.session.record (.called c api)).Audited t := ht.same rfl fun _ => Iff.rfl
    simp only [step, hfree, horder, Option.isSome_none, Bool.not_true, Bool.or_self,
      Bool.false_eq_true, if_false, Option.isSome_map]
    exact Session.enter_isSome hrecord api
  | resume env c =>
    obtain ⟨hsome, horder⟩ := hl
    obtain ⟨wait, hwait⟩ := Option.isSome_iff_exists.mp hsome
    simp only [step, hwait, horder, Bool.not_true, Bool.false_eq_true, if_false, Option.isSome_map]
    exact Session.resume_isSome ht (run_waits hrun hwait) wait.generation
  | destroy => rfl

end World

namespace Session

variable {s s' : Session} {t : MailboxAudit} {env : Environment} {id : String}

/-! ## Torrents that have been removed -/

/-- What has been read of a torrent's critical events. -/
def handed (id : String) (log : List Entry) : List String :=
  log.filterMap fun e =>
    match e with
    | .mail (.take i json) => if i = id then some json else none
    | _ => none

@[simp] theorem handed_append (id : String) (log new : List Entry) :
    handed id (log ++ new) = handed id log ++ handed id new := List.filterMap_append

/-- Unless the torrent is added anew, it stays away, and what is queued for it goes by being read
and not otherwise. -/
def Retains (id : String) (s s' : Session) : Prop :=
  ∃ new, s'.trace = s.trace ++ new ∧ (.mail (.begin id) ∉ new → id ∉ s.jobs →
    id ∉ s'.jobs ∧ s.events.queued id = handed id new ++ s'.events.queued id)

theorem Retains.refl (id : String) (s : Session) : Retains id s s :=
  ⟨[], (List.append_nil _).symm, fun _ hid => ⟨hid, rfl⟩⟩

theorem Retains.trans {u : Session} (h : Retains id s s') (h' : Retains id s' u) :
    Retains id s u := by
  obtain ⟨new, htrace, hkept⟩ := h
  obtain ⟨new', htrace', hkept'⟩ := h'
  refine ⟨new ++ new', by rw [htrace', htrace, List.append_assoc], fun hbegin hid => ?_⟩
  rw [List.mem_append, not_or] at hbegin
  obtain ⟨hid', hqueued⟩ := hkept hbegin.1 hid
  obtain ⟨hid'', hqueued'⟩ := hkept' hbegin.2 hid'
  exact ⟨hid'', by rw [hqueued, hqueued', handed_append, List.append_assoc]⟩

/-- Nothing happens to the mailbox that concerns the torrent. -/
theorem Retains.of_quiet {new : List Entry} (htrace : s'.trace = s.trace ++ new)
    (hnew : handed id new = []) (hjobs : id ∉ s.jobs → id ∉ s'.jobs)
    (hqueued : id ∉ s.jobs → s'.events.queued id = s.events.queued id) : Retains id s s' :=
  ⟨new, htrace, fun _ hid => ⟨hjobs hid, by rw [hnew, hqueued hid, List.nil_append]⟩⟩

theorem handed_eq_nil {log : List Entry} (h : ∀ e ∈ log, ∀ json, e ≠ .mail (.take id json)) :
    handed id log = [] := by
  refine List.filterMap_eq_nil_iff.mpr fun e he => ?_
  have hne := h e he
  split
  · next i json =>
    rw [if_neg]
    rintro rfl
    exact hne json rfl
  · rfl

/-- What is done for one torrent leaves the queues of the others alone. -/
theorem perform_queued {i : String} {a : Action} (h : s.events.WellFormed)
    (hp : s.perform env i a = some s') (hi : id ≠ i) :
    s'.events.queued id = s.events.queued id := by
  cases a with
  | command | began | accepted | completing =>
    cases hp
    rfl
  | enqueue kind json =>
    simp only [perform, enqueue] at hp
    split at hp
    · next events hc =>
      cases hp
      exact h.queued_critical_of_ne hc hi
    · cases hp
  | status json =>
    simp only [perform, publishStatus] at hp
    split at hp
    · next events hc =>
      cases hp
      exact status_queued hc id
    · cases hp

theorem performAll_queued {i : String} {actions : List Action} (h : s.Audited t)
    (hp : s.performAll env i actions = some s') (hi : id ≠ i) :
    s'.events.queued id = s.events.queued id := by
  induction actions generalizing s t with
  | nil =>
    cases hp
    rfl
  | cons a actions ih =>
    rw [performAll_cons, Option.bind_eq_some_iff] at hp
    obtain ⟨u, hu, hrest⟩ := hp
    obtain ⟨t', ht'⟩ := perform_audited h hu
    exact (ih ht' hrest).trans (perform_queued h.bounded.wellFormed hu hi)

theorem emits_handed {i : String} {actions : List Action} {new : List Entry}
    (h : Emits i actions new) : handed id new = [] := by
  refine handed_eq_nil fun e he json heq => ?_
  subst heq
  rcases emits_mem h he with ⟨a, -, ha⟩ | ⟨stored, json', heq⟩
  · cases a <;> cases ha
  · cases heq

theorem update_retains {i : String} {value : Job} {worked : Job × List Action} (h : s.Audited t)
    (hvalue : s.jobs.lookup i = some value) (hupdate : s.update env i worked = some s') :
    Retains id s s' := by
  obtain ⟨new, hu⟩ := update_spec hupdate
  have hpresent : i ∈ s.jobs := Finmap.mem_of_lookup_eq_some hvalue
  have hne : id ∉ s.jobs → id ≠ i := fun hid heq => hid (heq ▸ hpresent)
  refine .of_quiet hu.trace (emits_handed hu.emits) (fun hid => ?_) fun hid => ?_
  · rw [hu.jobs, Finmap.mem_insert, not_or]
    exact ⟨hne hid, hid⟩
  · have hactions : (s.setJob i worked.1).performAll env i worked.2 = some s' := hupdate
    have hkept := performAll_queued (h.setJob hpresent worked.1) hactions (hne hid)
    exact hkept

/-- The torrent is added anew, or another one is. -/
theorem insertJob_retains {i : String} {params : AddTorrentParams} {value : Job}
    (h : s.Audited t) (hinsert : s.insertJob env i params value = some s') : Retains id s s' := by
  obtain ⟨hjobs, -, -, -, rest, htrace, hrest⟩ := insertJob_spec hinsert
  refine ⟨_, htrace, fun hbegin hid => ?_⟩
  have hne : id ≠ i := by
    rintro rfl
    simp at hbegin
  have hhanded : handed id (.command (.addTorrent params value.handle) ::
      .mail (.begin i) :: rest) = [] := by
    refine handed_eq_nil fun e he json heq => ?_
    subst heq
    have hmem : Entry.mail (.take id json) ∈ rest := by simpa using he
    have hsubmit := hrest _ hmem
    cases hsubmit
  have hqueued : s'.events.queued id = s.events.queued id := by
    rcases insertJob_cases hinsert with rfl | hperform
    · exact queued_add s.events i id
    · have hadd := h.bounded.wellFormed.add i
      exact (perform_queued hadd hperform hne).trans (queued_add s.events i id)
  refine ⟨?_, by rw [hhanded, hqueued, List.nil_append]⟩
  rw [hjobs, Finmap.mem_insert, not_or]
  exact ⟨hne, hid⟩

theorem read_retains {json : String} (hpop : s.popEvent env json = some s')
    (hfront : s.events.front env.mailboxOrder = some json) : Retains id s s' := by
  unfold popEvent at hpop
  split at hpop
  · next events hc =>
    cases hpop
    refine ⟨_, rfl, fun _ hid => ⟨hid, ?_⟩⟩
    cases hcritical : s.events.critical_ with
    | nil => exact (pop_queued_nil hcritical hc id).symm
    | cons e rest =>
      obtain rfl : e.json = json := by simpa [front, hcritical] using hfront
      rw [pop_queued hcritical hc id]
      by_cases hi : e.id = id <;> simp [handed, hi]
  · cases hpop

theorem remove_retains {i : String} {value : Job} (hvalue : s.jobs.lookup i = some value)
    (deleteFiles : Bool) : Retains id s (s.ltkitSessionRemove i deleteFiles).1 := by
  have herase : id ∉ s.jobs → id ∉ s.jobs.erase i := fun hid hmem =>
    hid (Finmap.mem_erase.mp hmem).2
  have hqueued : id ∉ s.jobs → (s.events.retire i).queued id = s.events.queued id :=
    fun _ => queued_retire s.events i id
  simp only [ltkitSessionRemove, hvalue]
  split
  · exact .of_quiet (List.append_nil _).symm rfl (fun hid => hid) fun _ => rfl
  · cases value.stopped with
    | true => exact .of_quiet (List.append_nil _).symm rfl herase hqueued
    | false => exact .of_quiet rfl (handed_eq_nil (by simp)) herase hqueued

theorem micro_retains (hm : World.Micro s s') (h : s.Audited t) : Retains id s s' := by
  have hrecord : ∀ e : Entry, (∀ json, e ≠ .mail (.take id json)) → Retains id s (s.record e) :=
    fun e he => .of_quiet rfl (handed_eq_nil (by simpa using he)) (fun hid => hid) fun _ => rfl
  have hsame : s'.trace = s.trace → s'.jobs = s.jobs → s'.events = s.events → Retains id s s' :=
    fun htrace hjobs hevents => .of_quiet (by rw [htrace, List.append_nil]) rfl
      (fun hid => by rwa [hjobs]) fun _ => by rw [hevents]
  cases hm with
  | called | returned => exact hrecord _ fun json heq => by cases heq
  | destroy => exact hsame rfl rfl rfl
  | alert env alert hrunning hh =>
    rcases handleAlert_cases hh with rfl | ⟨i, value, hvalue, -, -, hupdate⟩
    · exact hrecord _ fun json heq => by cases heq
    · have hnoted : (s.record (.alert (some i) alert)).Audited t := h.same rfl fun _ => Iff.rfl
      exact (hrecord _ fun json heq => by cases heq).trans (update_retains hnoted hvalue hupdate)
  | life hl =>
    cases hl with
    | insert env r params desired handle hrunning hfree hcan hadd hinsert =>
      exact insertJob_retains h hinsert
    | remove i value deleteFiles hvalue hactive => exact remove_retains hvalue deleteFiles
  | move hmove =>
    cases hmove with
    | error | wake => exact hsame rfl rfl rfl
    | read env json hfront hpop => exact read_retains hpop hfront
    | work env i hvalue hwork hupdate => exact update_retains h hvalue hupdate

theorem micros_retain (hm : Relation.ReflTransGen World.Micro s s') (h : s.Audited t)
    (id : String) : Retains id s s' := by
  have hboth : Retains id s s' ∧ ∃ t', s'.Audited t' := by
    induction hm with
    | refl => exact ⟨.refl id s, t, h⟩
    | tail _ hmicro ih =>
      obtain ⟨hretains, t', ht'⟩ := ih
      exact ⟨hretains.trans (micro_retains hmicro ht'), micro_audited hmicro ht'⟩
  exact hboth.1

/-! ## Torrents that come back -/

/-- The record of a torrent that has just been added; its metadata may be announced already. -/
def freshRecord (announced : Bool) : EventMailbox.Job :=
  if announced then { deliveredOrPending := {.metadata}, pending := 1 } else {}

theorem lookup_add {m : EventMailbox} (hcan : m.canAdd id = true) :
    (m.add id).jobs_.lookup id = some (freshRecord false) := by
  have hfree : id ∉ m.jobs_ := by
    simp only [canAdd, Bool.and_eq_true, decide_eq_true_eq] at hcan
    exact hcan.2
  rw [EventMailbox.add, if_neg hfree]
  exact Finmap.lookup_insert _

theorem lookup_announced {m m' : EventMailbox} {alloc : Allocator} {json : String}
    (hfresh : m.jobs_.lookup id = some (freshRecord false))
    (hc : m.critical alloc id .metadata json = .ok m') :
    m'.jobs_.lookup id = some (freshRecord true) := by
  rw [critical, hfresh] at hc
  cases hc
  exact Finmap.lookup_insert _

theorem insertJob_fresh {params : AddTorrentParams} {value : Job}
    (hcan : s.events.canAdd id = true) (hinsert : s.insertJob env id params value = some s') :
    s'.events.jobs_.lookup id = some (freshRecord (env.torrentFile value.handle).isSome) := by
  have hadd := lookup_add hcan
  unfold insertJob at hinsert
  dsimp only at hinsert
  split at hinsert
  · next hinfo =>
    unfold enqueue at hinsert
    split at hinsert
    · next events hc =>
      cases hinsert
      rw [hinfo]
      exact lookup_announced hadd hc
    · cases hinsert
  · next hinfo =>
    cases hinsert
    rw [Bool.eq_false_iff.mpr hinfo]
    exact hadd

theorem remove_gone {deleteFiles : Bool}
    (hok : (s.ltkitSessionRemove id deleteFiles).2.code = .ok) :
    id ∉ (s.ltkitSessionRemove id deleteFiles).1.jobs := by
  cases hvalue : s.jobs.lookup id with
  | none =>
    simp only [ltkitSessionRemove, hvalue]
    exact Finmap.lookup_eq_none.mp hvalue
  | some value =>
    cases hactive : value.checkpoint.active with
    | false =>
      rw [remove_jobs hvalue hactive, Finmap.mem_erase]
      exact fun hmem => hmem.1 rfl
    | true =>
      simp only [ltkitSessionRemove, hvalue, hactive, if_true] at hok
      cases hok

/-- How `ltkit_session_add` treats the identifier of a torrent that has been removed. -/
structure Readmits (s : Session) (id : String) : Prop where
  refused : s.events.queued id ≠ [] → ∀ env r, r.identifier = id → isValidAdd r = true →
    s.shuttingDown = false → s.ltkitSessionAdd env r = some (s.fail .allocationLimit
      "Drain events and remove unused torrents before adding more torrents.")
  admitted : s.events.queued id = [] → s.events.jobs_.keys.card < maxJobs →
    s.events.canAdd id = true
  accepted : ∀ env r params handle, r.identifier = id → s.addTarget env r = some params →
    env.addTorrent params = some handle → ∃ s' value,
      s.ltkitSessionAdd env r = some (s', { code := .ok }) ∧
        s'.jobs.lookup id = some value ∧ value.handle = handle ∧
          s'.events.jobs_.lookup id = some (freshRecord (env.torrentFile handle).isSome)

theorem Audited.readmits (h : s.Audited t) (hid : id ∉ s.jobs) : s.Readmits id where
  refused := by
    rintro hqueued env r rfl hvalid hrunning
    have hcan : s.events.canAdd r.identifier = false := by
      have hpresent := not_imp_comm.mp (h.absent_iff hid).mp hqueued
      simp [canAdd, hpresent]
    unfold ltkitSessionAdd
    rw [if_neg (by simp [hvalid]), if_neg (by simp [hrunning]), if_neg hid, if_pos (by simp [hcan])]
  admitted := by
    intro hqueued hroom
    simp [canAdd, hroom, (h.absent_iff hid).mpr hqueued]
  accepted := by
    rintro env r params handle rfl htarget hadd
    obtain ⟨-, -, -, hcan, -⟩ := addTarget_passes htarget
    obtain ⟨read, -, -, -, heq⟩ := add_of_target htarget
    rw [hadd] at heq
    obtain ⟨s', -, hinsert, -⟩ := insertJob_defined env params
      (newJob env r params (desiredFiles r (withSettings r read)) handle) h hcan
    refine ⟨s', newJob env r params (desiredFiles r (withSettings r read)) handle, ?_, ?_, rfl,
      insertJob_fresh hcan hinsert⟩
    · simp only [heq, hinsert, Option.map_some]
    · rw [(insertJob_spec hinsert).1, Finmap.lookup_insert]

end Session

namespace World

theorem exec_retains {ls ls' : List Step} {w w' : World} (hrun : Lts.exec step {} ls = some w)
    (hexec : Lts.exec step w ls' = some w') (id : String) :
    Session.Retains id w.session w'.session := by
  induction ls' using List.reverseRecOn generalizing w' with
  | nil =>
    cases hexec
    exact .refl id w.session
  | append_singleton ls' l ih =>
    obtain ⟨v, hv, hstep⟩ := Lts.exec_snoc_eq_some.mp hexec
    have hwhole : Lts.exec step {} (ls ++ ls') = some v := by
      rw [Lts.exec_append, hrun, Option.bind_some, hv]
    obtain ⟨t, ht⟩ := Session.run_audited hwhole
    exact (ih hv).trans (Session.micros_retain (step_micro (run_callers hwhole).2 hstep) ht id)

/-- **The session and its mailbox agree on who is alive.** After every run the jobs are the torrents
of the mailbox that are not retired. So whatever is put into the mailbox for a job finds its torrent
there, and every critical section that can begin runs to its end. The identifier of a torrent that
has been removed is refused as long as critical events of it are queued, which go by being read and
not otherwise; then it is admitted again, with a fresh record. -/
theorem agree_on_alive {ls : List Step} {w : World} (hrun : Lts.exec step {} ls = some w) :
    (∀ id, id ∈ w.session.jobs ↔
      ∃ job, w.session.events.jobs_.lookup id = some job ∧ job.retired = false) ∧
    (∀ id ∈ w.session.jobs, ∀ alloc kind json,
      (∃ m, w.session.events.critical alloc id kind json = .ok m) ∧
        ∃ m, w.session.events.status id json = .ok m) ∧
    (∀ l, w.Begins l → (w.step l).isSome = true) ∧
    (∀ id deleteFiles, (w.session.ltkitSessionRemove id deleteFiles).2.code = .ok →
      id ∉ (w.session.ltkitSessionRemove id deleteFiles).1.jobs) ∧
    ∀ id, id ∉ w.session.jobs → w.session.Readmits id ∧ ∀ ls' w',
      Lts.exec step w ls' = some w' → Session.Retains id w.session w'.session := by
  obtain ⟨t, ht⟩ := Session.run_audited hrun
  refine ⟨ht.alive_iff, fun id hid => ht.finds hid, fun l => step_defined hrun, ?_, ?_⟩
  · exact fun id deleteFiles => Session.remove_gone
  · exact fun id hid => ⟨ht.readmits hid, fun ls' w' hexec => exec_retains hrun hexec id⟩

/-- A torrent is added with its metadata and removed at once. -/
def removedRun : List Step :=
  [.call sampleEnvironment 0 (.add sampleRequest), .call sampleEnvironment 0 (.remove "a" false)]

/-- Its identifier is refused until the event is read. -/
theorem removedRun_refused :
    (after removedRun).session.ltkitSessionAdd sampleEnvironment sampleRequest =
      some ((after removedRun).session.fail .allocationLimit
        "Drain events and remove unused torrents before adding more torrents.") := by
  have hsome : (Lts.exec step {} removedRun).isSome = true := by decide +kernel
  have hgone : "a" ∉ (after removedRun).session.jobs := by decide +kernel
  have hqueued : (after removedRun).session.events.queued "a" ≠ [] := by decide +kernel
  have hagree := agree_on_alive (exec_after hsome)
  exact (hagree.2.2.2.2 "a" hgone).1.refused hqueued sampleEnvironment sampleRequest rfl
    (by decide +kernel) (by decide +kernel)

end World

end LibtorrentKit
