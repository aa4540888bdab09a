/-
  What a critical section can do to the session, said once.

  `Session.Work` lists the ways in which a call changes one job, `Session.Move` and
  `Session.Life` the ways in which it changes the session; `enter_moves` and `resume_moves`
  show that every call stays within them. `Session.Updated` says what `update` does to the
  session and to its trace. The invariants are proved from these and from `onAlert`, without
  looking at the calls again.
-/
import LibtorrentKit.Session.JobSteps
import Mathlib.Logic.Relation

namespace LibtorrentKit

namespace Session

@[simp] theorem setError_jobs (s : Session) (e : String) : (s.setError e).jobs = s.jobs := rfl
@[simp] theorem setError_events (s : Session) (e : String) : (s.setError e).events = s.events := rfl
@[simp] theorem setError_trace (s : Session) (e : String) : (s.setError e).trace = s.trace := rfl
@[simp] theorem setError_shuttingDown (s : Session) (e : String) :
    (s.setError e).shuttingDown = s.shuttingDown := rfl
@[simp] theorem setError_wakeGeneration (s : Session) (e : String) :
    (s.setError e).wakeGeneration = s.wakeGeneration := rfl
@[simp] theorem record_jobs (s : Session) (e : Entry) : (s.record e).jobs = s.jobs := rfl
@[simp] theorem record_events (s : Session) (e : Entry) : (s.record e).events = s.events := rfl
@[simp] theorem record_trace (s : Session) (e : Entry) : (s.record e).trace = s.trace ++ [e] := rfl
@[simp] theorem record_shuttingDown (s : Session) (e : Entry) :
    (s.record e).shuttingDown = s.shuttingDown := rfl
@[simp] theorem record_wakeGeneration (s : Session) (e : Entry) :
    (s.record e).wakeGeneration = s.wakeGeneration := rfl

/-! ## Updates -/

/-- The entry that an action leaves in the trace. -/
def actionEntry (id : String) : Action → Option Entry
  | .command c => some (.command c)
  | .began handle flush completion => some (.began id handle flush completion)
  | .accepted alert => some (.accepted id alert)
  | .completing handle desired => some (.completing id handle desired)
  | .enqueue kind json => some (.mail (.submit id kind json))
  | .status _ => none

/-- Entries that say that an error was merged. -/
def Merges (id : String) (l : List Entry) : Prop :=
  ∀ e ∈ l, ∃ stored json, e = .merged id stored json

/-- An action whose entry is all that it leaves: only an error may be merged. -/
def Exact (a : Action) : Prop := ∀ json, a ≠ .enqueue .error json

/-- `new` is what `actions` leave in the trace: their entries in order, and before that of an
    error perhaps the note that it was merged. -/
def Emits (id : String) : List Action → List Entry → Prop
  | [], new => new = []
  | a :: actions, new => ∃ notes rest, new = notes ++ (actionEntry id a).toList ++ rest ∧
      Merges id notes ∧ (Exact a → notes = []) ∧ Emits id actions rest

theorem emits_cons {id : String} {a : Action} {actions : List Action} {new : List Entry}
    {e : Entry} (ha : Exact a) (he : actionEntry id a = some e) (h : Emits id (a :: actions) new) :
    ∃ rest, new = e :: rest ∧ Emits id actions rest := by
  obtain ⟨notes, rest, rfl, _, hexact, hrest⟩ := h
  rw [hexact ha, he]
  exact ⟨rest, rfl, hrest⟩

theorem Merges.nil {id : String} : Merges id [] := by
  intro e he
  cases he

/-- Every entry comes from one of the actions, or notes a merge. -/
theorem emits_mem {id : String} {actions : List Action} {new : List Entry}
    (h : Emits id actions new) {e : Entry} (he : e ∈ new) :
    (∃ a ∈ actions, actionEntry id a = some e) ∨ ∃ stored json, e = .merged id stored json := by
  induction actions generalizing new with
  | nil =>
      obtain rfl : new = [] := h
      cases he
  | cons a actions ih =>
      obtain ⟨notes, rest, rfl, hnotes, _, hrest⟩ := h
      rcases List.mem_append.mp he with he | he
      · rcases List.mem_append.mp he with he | he
        · exact Or.inr (hnotes e he)
        · exact Or.inl ⟨a, List.mem_cons_self, Option.mem_toList.mp he⟩
      · rcases ih hrest he with ⟨b, hb, hbe⟩ | hm
        · exact Or.inl ⟨b, List.mem_cons_of_mem _ hb, hbe⟩
        · exact Or.inr hm

/-- Every action that leaves an entry has left it. -/
theorem emits_of_mem {id : String} {actions : List Action} {new : List Entry}
    (h : Emits id actions new) {a : Action} (ha : a ∈ actions) {e : Entry}
    (hae : actionEntry id a = some e) : e ∈ new := by
  induction actions generalizing new with
  | nil => cases ha
  | cons b actions ih =>
      obtain ⟨notes, rest, rfl, _, _, hrest⟩ := h
      rcases List.mem_cons.mp ha with rfl | ha
      · simp [hae]
      · exact List.mem_append_right _ (ih hrest ha)

/-- What `update` does to the session and to its trace. -/
structure Updated (s s' : Session) (id : String) (worked : Job × List Action)
    (new : List Entry) : Prop where
  jobs : s'.jobs = s.jobs.insert id worked.1
  trace : s'.trace = s.trace ++ new
  shuttingDown : s'.shuttingDown = s.shuttingDown
  wakeGeneration : s'.wakeGeneration = s.wakeGeneration
  lastError : s'.lastError = s.lastError
  emits : Emits id worked.2 new

theorem mergedEntry_merges (m : EventMailbox) (id : String) (kind : Kind) (json : String) :
    Merges id (mergedEntry m id kind json) := by
  intro e he
  unfold mergedEntry at he
  split at he
  · obtain ⟨run, _, rfl⟩ := List.mem_map.mp he
    exact ⟨run.json, json, rfl⟩
  · cases he

theorem perform_spec {s s' : Session} {env : Environment} {id : String} {a : Action}
    (h : s.perform env id a = some s') :
    s'.jobs = s.jobs ∧ s'.shuttingDown = s.shuttingDown ∧
      s'.wakeGeneration = s.wakeGeneration ∧ s'.lastError = s.lastError ∧
      ∃ notes, s'.trace = s.trace ++ (notes ++ (actionEntry id a).toList) ∧ Merges id notes ∧
        (Exact a → notes = []) := by
  have hrecord : ∀ e, s.record e = s' → actionEntry id a = some e →
      s'.jobs = s.jobs ∧ s'.shuttingDown = s.shuttingDown ∧
        s'.wakeGeneration = s.wakeGeneration ∧ s'.lastError = s.lastError ∧
        ∃ notes, s'.trace = s.trace ++ (notes ++ (actionEntry id a).toList) ∧ Merges id notes ∧
          (Exact a → notes = []) := by
    rintro e rfl he
    exact ⟨rfl, rfl, rfl, rfl, [], by simp [he], .nil, fun _ => rfl⟩
  cases a with
  | command c => exact hrecord _ (Option.some.inj h) rfl
  | began handle flush completion => exact hrecord _ (Option.some.inj h) rfl
  | accepted alert => exact hrecord _ (Option.some.inj h) rfl
  | completing handle desired => exact hrecord _ (Option.some.inj h) rfl
  | enqueue kind json =>
      simp only [perform, enqueue] at h
      split at h
      · obtain rfl := Option.some.inj h
        refine ⟨rfl, rfl, rfl, rfl, _, List.append_assoc _ _ _, mergedEntry_merges _ _ _ _, ?_⟩
        intro hexact
        have hk : kind ≠ .error := fun hk => hexact json (by rw [hk])
        simp [mergedEntry, hk]
      · cases h
  | status json =>
      simp only [perform, publishStatus] at h
      split at h
      · obtain rfl := Option.some.inj h
        exact ⟨rfl, rfl, rfl, rfl, [], (List.append_nil _).symm, .nil, fun _ => rfl⟩
      · cases h

theorem performAll_cons (s : Session) (env : Environment) (id : String) (a : Action)
    (actions : List Action) :
    s.performAll env id (a :: actions) =
      (s.perform env id a).bind fun s => s.performAll env id actions := by
  unfold performAll
  rw [List.foldlM_cons]
  rfl

theorem performAll_spec {s s' : Session} {env : Environment} {id : String} {actions : List Action}
    (h : s.performAll env id actions = some s') :
    s'.jobs = s.jobs ∧ s'.shuttingDown = s.shuttingDown ∧
      s'.wakeGeneration = s.wakeGeneration ∧ s'.lastError = s.lastError ∧
      ∃ new, s'.trace = s.trace ++ new ∧ Emits id actions new := by
  induction actions generalizing s with
  | nil =>
      obtain rfl : s = s' := Option.some.inj h
      exact ⟨rfl, rfl, rfl, rfl, [], (List.append_nil _).symm, rfl⟩
  | cons a actions ih =>
      rw [performAll_cons, Option.bind_eq_some_iff] at h
      obtain ⟨t, ht, hrest⟩ := h
      obtain ⟨hj, hsd, hwg, hle, notes, htr, hnotes, hexact⟩ := perform_spec ht
      obtain ⟨hj', hsd', hwg', hle', rest, htr', hemits⟩ := ih hrest
      refine ⟨hj'.trans hj, hsd'.trans hsd, hwg'.trans hwg, hle'.trans hle,
        notes ++ (actionEntry id a).toList ++ rest, ?_, notes, rest, rfl, hnotes, hexact, hemits⟩
      rw [htr', htr, List.append_assoc]

theorem update_spec {s s' : Session} {env : Environment} {id : String}
    {worked : Job × List Action} (h : s.update env id worked = some s') :
    ∃ new, s.Updated s' id worked new := by
  obtain ⟨hj, hsd, hwg, hle, new, htr, hemits⟩ := performAll_spec h
  exact ⟨new, hj, htr, hsd, hwg, hle, hemits⟩

/-! ## Adding a job -/

/-- The session in which `insertJob` has entered its job. -/
def entered (s : Session) (id : String) (params : AddTorrentParams) (value : Job) : Session :=
  { s.record (.command (.addTorrent params value.handle)) with
    events := s.events.add id
    jobs := s.jobs.insert id value
    trace := (s.record (.command (.addTorrent params value.handle))).trace ++ [.mail (.begin id)] }

@[simp] theorem entered_jobs (s : Session) (id : String) (params : AddTorrentParams) (value : Job) :
    (s.entered id params value).jobs = s.jobs.insert id value := rfl

@[simp] theorem entered_trace (s : Session) (id : String) (params : AddTorrentParams)
    (value : Job) : (s.entered id params value).trace =
      s.trace ++ [.command (.addTorrent params value.handle), .mail (.begin id)] := by
  simp [entered]

theorem insertJob_cases {s s' : Session} {env : Environment} {id : String}
    {params : AddTorrentParams} {value : Job} (h : s.insertJob env id params value = some s') :
    s' = s.entered id params value ∨
      (s.entered id params value).perform env id
        (.enqueue .metadata (metadataReadyJson id)) = some s' := by
  unfold insertJob at h
  dsimp only at h
  split at h
  · exact Or.inr h
  · exact Or.inl (Option.some.inj h).symm

/-- What `insertJob` does to the session: the torrent is announced, the mailbox opens the life
    of `id`, and metadata that are there already are announced, too. -/
theorem insertJob_spec {s s' : Session} {env : Environment} {id : String}
    {params : AddTorrentParams} {value : Job} (h : s.insertJob env id params value = some s') :
    s'.jobs = s.jobs.insert id value ∧ s'.shuttingDown = s.shuttingDown ∧
      s'.wakeGeneration = s.wakeGeneration ∧ s'.lastError = s.lastError ∧
      ∃ new, s'.trace = s.trace ++ .command (.addTorrent params value.handle) ::
          .mail (.begin id) :: new ∧
        ∀ e ∈ new, e = .mail (.submit id .metadata (metadataReadyJson id)) := by
  rcases insertJob_cases h with rfl | hperform
  · exact ⟨rfl, rfl, rfl, rfl, [], by simp, fun e he => by cases he⟩
  · obtain ⟨hj, hsd, hwg, hle, notes, htr, _, hexact⟩ := perform_spec hperform
    rw [hexact fun json => by simp] at htr
    refine ⟨hj, hsd, hwg, hle, _, ?_, fun e he => List.mem_singleton.mp he⟩
    rw [htr]
    simp [actionEntry]

/-! ## Reading an event -/

/-- What `popEvent` does to the session: one event leaves the mailbox. -/
theorem popEvent_spec {s s' : Session} {env : Environment} {json : String}
    (h : s.popEvent env json = some s') :
    s'.jobs = s.jobs ∧ s'.shuttingDown = s.shuttingDown ∧
      s'.wakeGeneration = s.wakeGeneration ∧
      ∃ new, s'.trace = s.trace ++ new ∧ ∀ e ∈ new, ∃ id, e = .mail (.take id json) := by
  unfold popEvent at h
  split at h
  · obtain rfl := Option.some.inj h
    refine ⟨rfl, rfl, rfl, _, rfl, fun e he => ?_⟩
    obtain ⟨x, _, rfl⟩ := Option.map_eq_some_iff.mp (Option.mem_toList.mp he)
    exact ⟨_, rfl⟩
  · cases h

/-! ## Handling an alert -/

theorem routed_spec {s : Session} {env : Environment} {alert : Alert} {id : String} {value : Job}
    (h : s.routed env alert = some (id, value)) :
    s.jobs.lookup id = some value ∧ value.handle = alert.handle ∧
      env.isValid value.handle = true := by
  simp only [routed, Option.bind_eq_some_iff, Option.ite_none_right_eq_some,
    Option.some.injEq, Prod.mk.injEq] at h
  obtain ⟨i, hid, v, hv, hvalid, rfl, rfl⟩ := h
  have hhandle := List.find?_some hid
  simp only [hv, Option.any_some, decide_eq_true_eq] at hhandle
  exact ⟨hv, hhandle, hvalid⟩

/-- An alert is passed over, or handed to a job that holds its handle. -/
theorem handleAlert_cases {s s' : Session} {env : Environment} {alert : Alert}
    (h : s.handleAlert env alert = some s') :
    s' = s.record (.alert none alert) ∨
      ∃ id value, s.jobs.lookup id = some value ∧ value.handle = alert.handle ∧
        env.isValid value.handle = true ∧
        (s.record (.alert (some id) alert)).update env id (onAlert env id value alert)
          = some s' := by
  unfold handleAlert at h
  split at h
  · exact Or.inl (Option.some.inj h).symm
  · next id value hrouted =>
      obtain ⟨hv, hhandle, hvalid⟩ := routed_spec hrouted
      exact Or.inr ⟨id, value, hv, hhandle, hvalid, h⟩

/-! ## What a call does to one job -/

/-- The ways in which a call changes a job of the session; `slot` says whether it is one that
    may take or free the checkpoint slot, `closing` whether the session is shutting down. -/
inductive Work (slot closing : Prop) (env : Environment) (value : Job) : Job × List Action → Prop
  /-- Selection, priorities, start, pause and what only reads. -/
  | select {value' : Job} {actions : List Action} (hselects : value.Selects value')
      (htuning : Tuning actions) : Work slot closing env value (value', actions)
  /-- `ltkit_session_metadata` finds an unsafe path. -/
  | reject : Work slot closing env value ({ value with stopped := true },
      [.command (.pause value.handle), .command (.removeTorrent value.handle false)])
  /-- `ltkit_session_checkpoint` issues its request. -/
  | begin (hslot : slot) (flush : Bool) (hstopped : value.stopped = false)
      (hactive : value.checkpoint.active = false) (hidle : value.checkpoint.barrier.phase = .idle)
      (hcompletion : value.completionCheckpoint = false) :
      Work slot closing env value (beginCheckpoint value flush)
  /-- Its caller gives up. -/
  | abandon (hslot : slot) (hactive : value.checkpoint.active = true) :
      Work slot closing env value (abandonCheckpoint value)
  /-- Its caller returns with the result. -/
  | finish (hslot : slot) (hactive : value.checkpoint.active = true)
      (hdone : value.checkpoint.done = true ∨ closing) :
      Work slot closing env value (startWaitingCompletion { value with checkpoint := {} })

/-- The ways in which a call changes the session without adding or removing a job; `slot` says
    of which jobs it may take or free the slot. -/
inductive Move (slot : String → Prop) (s : Session) : Session → Prop
  | error (e : String) : Move slot s (s.setError e)
  | wake : Move slot s s.ltkitSessionWake
  | read {s' : Session} (env : Environment) (json : String)
      (hfront : s.events.front env.mailboxOrder = some json)
      (hpop : s.popEvent env json = some s') : Move slot s s'
  | work {s' : Session} (env : Environment) (id : String) {value : Job}
      {worked : Job × List Action} (hvalue : s.jobs.lookup id = some value)
      (hwork : Work (slot id) (s.shuttingDown = true) env value worked)
      (hupdate : s.update env id worked = some s') : Move slot s s'

/-- The ways in which a call begins or ends the life of a job. -/
inductive Life (s : Session) : Session → Prop
  | insert {s' : Session} (env : Environment) (r : AddRequest) (params : AddTorrentParams)
      (desired : List Int) (handle : Handle) (hrunning : s.shuttingDown = false)
      (hfree : r.identifier ∉ s.jobs) (hcan : s.events.canAdd r.identifier = true)
      (hadd : env.addTorrent params = some handle)
      (hinsert : s.insertJob env r.identifier params (newJob env r params desired handle)
        = some s') : Life s s'
  | remove (id : String) (value : Job) (deleteFiles : Bool)
      (hvalue : s.jobs.lookup id = some value) (hactive : value.checkpoint.active = false) :
      Life s (s.ltkitSessionRemove id deleteFiles).1

/-- Several moves, one after the other. -/
abbrev Moves (slot : String → Prop) : Session → Session → Prop := Relation.ReflTransGen (Move slot)

variable {slot : String → Prop}

theorem Moves.one {s s' : Session} (h : Move slot s s') : Moves slot s s' := .single h

theorem fail_moves (s : Session) (code : Code) (safeMessage : String) :
    Moves slot s (s.fail code safeMessage).1 :=
  .one (.error safeMessage)

theorem notActive_moves (s : Session) : Moves slot s s.notActive.1 := fail_moves s _ _

theorem reply_moves (s : Session) (env : Environment) (m : String) (answer : Reply) :
    Moves slot s (s.reply env m answer).1 := by
  cases answer with
  | fail code safeMessage => exact fail_moves s code safeMessage
  | ok output =>
      simp only [reply]
      split
      · exact .refl
      · exact fail_moves s _ _

theorem onActive_moves {s : Session} {env : Environment} {id m : String}
    {body : Job → Job × List Action × Reply} {r : Session × Response}
    (hbody : ∀ value, value.Selects (body value).1 ∧ Tuning (body value).2.1)
    (h : s.onActive env id m body = some r) : Moves slot s r.1 := by
  unfold onActive at h
  split at h
  · obtain rfl := Option.some.inj h
    exact fail_moves s _ _
  · next value hvalue =>
      split at h
      · obtain rfl := Option.some.inj h
        exact fail_moves s _ _
      · obtain ⟨t, ht, rfl⟩ := Option.map_eq_some_iff.mp h
        exact (Moves.one (.work env id hvalue (.select (hbody value).1 (hbody value).2) ht)).trans
          (reply_moves t env m _)

theorem selection_moves {s : Session} {env : Environment} {id m : String}
    {body : Job → Job × List Action × Reply} {r : Session × Response}
    (hbody : ∀ value, value.Selects (body value).1 ∧ Prioritizing (body value).2.1)
    (h : s.onActive env id m body = some r) : Moves slot s r.1 :=
  onActive_moves (fun value => (hbody value).imp_right Prioritizing.tuning) h

theorem addParams_error {env : Environment} {r : AddRequest} {code : Code} {m : String}
    (h : addParams env r = .error (code, m)) : code ≠ .ok := by
  unfold addParams at h
  rintro rfl
  split at h
  · cases h
  · split at h
    · cases h
    · split at h
      · cases h
      · split at h
        · cases h
        · cases h

/-- An add fails and says why, or inserts the new job and succeeds. -/
theorem add_inserts {s : Session} {env : Environment} {r : AddRequest} {res : Session × Response}
    (h : s.ltkitSessionAdd env r = some res) :
    (∃ code m, code ≠ .ok ∧ res = s.fail code m) ∨ ∃ params desired handle,
      s.shuttingDown = false ∧ r.identifier ∉ s.jobs ∧ s.events.canAdd r.identifier = true ∧
      env.addTorrent params = some handle ∧
      s.insertJob env r.identifier params (newJob env r params desired handle) = some res.1 ∧
      res.2 = { code := .ok } := by
  have hfail : ∀ code m, code ≠ .ok → some (s.fail code m) = some res →
      ∃ code m, code ≠ .ok ∧ res = s.fail code m :=
    fun code m hcode hf => ⟨code, m, hcode, (Option.some.inj hf).symm⟩
  unfold ltkitSessionAdd at h
  split at h
  · exact Or.inl (hfail _ _ (by decide) h)
  · split at h
    · exact Or.inl (hfail _ _ (by decide) h)
    · next hrunning =>
        split at h
        · exact Or.inl (hfail _ _ (by decide) h)
        · next hfree =>
            split at h
            · exact Or.inl (hfail _ _ (by decide) h)
            · next hcan =>
                split at h
                · exact Or.inl (hfail _ _ (by decide) h)
                · split at h
                  · next hparams => exact Or.inl (hfail _ _ (addParams_error hparams) h)
                  · dsimp only at h
                    split at h
                    · exact Or.inl (hfail _ _ (by decide) h)
                    · split at h
                      · exact Or.inl (hfail _ _ (by decide) h)
                      · next handle hadd =>
                          obtain ⟨t, ht, rfl⟩ := Option.map_eq_some_iff.mp h
                          exact Or.inr ⟨_, _, handle, Bool.eq_false_iff.mpr hrunning, hfree,
                            by simpa using hcan, hadd, ht, rfl⟩

theorem add_moves {s : Session} {env : Environment} {r : AddRequest} {res : Session × Response}
    (h : s.ltkitSessionAdd env r = some res) : Moves slot s res.1 ∨ Life s res.1 := by
  rcases add_inserts h with ⟨code, m, _, rfl⟩ |
    ⟨params, desired, handle, hrunning, hfree, hcan, hadd, hinsert, _⟩
  · exact Or.inl (fail_moves s code m)
  · exact Or.inr (.insert env r params desired handle hrunning hfree hcan hadd hinsert)

theorem metadataResult_moves {s : Session} {env : Environment} {id : String}
    {res : Session × Response} (h : s.metadataResult env id = some res) : Moves slot s res.1 := by
  unfold metadataResult at h
  split at h
  · obtain rfl := Option.some.inj h
    exact fail_moves s _ _
  · next value hvalue =>
      split at h
      · obtain rfl := Option.some.inj h
        exact fail_moves s _ _
      · split at h
        · obtain ⟨t, ht, rfl⟩ := Option.map_eq_some_iff.mp h
          exact (Moves.one (.work env id hvalue .reject ht)).trans (fail_moves t _ _)
        · obtain rfl := Option.some.inj h
          exact reply_moves s env _ _

theorem resumeMetadata_moves {s : Session} {env : Environment} {id : String} {g : Nat}
    {res : Session × Response} (h : s.resumeMetadata env id g = some res) : Moves slot s res.1 := by
  unfold resumeMetadata at h
  split at h
  · obtain rfl := Option.some.inj h
    exact fail_moves s _ _
  · split at h
    · obtain rfl := Option.some.inj h
      exact fail_moves s _ _
    · exact metadataResult_moves h

/-- Some caller's checkpoint occupies the slot of `id`. -/
def activeAt (s : Session) (id : String) : Bool :=
  (s.jobs.lookup id).any fun value => value.checkpoint.active

theorem activeAt_eq {s : Session} {id : String} {value : Job}
    (h : s.jobs.lookup id = some value) : s.activeAt id = value.checkpoint.active := by
  simp [activeAt, h]

theorem resumeCheckpoint_moves {s : Session} {env : Environment} {id : String} {g : Nat}
    {res : Session × Response} (hslot : slot id) (hactive : s.activeAt id = true)
    (h : s.resumeCheckpoint env id g = some res) : Moves slot s res.1 := by
  unfold resumeCheckpoint at h
  dsimp only at h
  split at h
  · obtain rfl := Option.some.inj h
    exact fail_moves s _ _
  · next value hvalue =>
      have hact : value.checkpoint.active = true := (activeAt_eq hvalue).symm.trans hactive
      split at h
      · obtain ⟨t, ht, rfl⟩ := Option.map_eq_some_iff.mp h
        exact (Moves.one (.work env id hvalue (.abandon hslot hact) ht)).trans (fail_moves t _ _)
      · next hwoken =>
        obtain ⟨t, ht, rfl⟩ := Option.map_eq_some_iff.mp h
        have hdone : value.checkpoint.done = true ∨ s.shuttingDown = true := by
          simp only [Bool.or_eq_true, Bool.not_eq_eq_eq_not, Bool.not_true, not_or,
            Bool.not_eq_false, checkpointWoken, hvalue, decide_eq_true_eq] at hwoken
          tauto
        refine (Moves.one (.work env id hvalue (.finish hslot hact hdone) ht)).trans ?_
        split
        · exact fail_moves t _ _
        · exact reply_moves t env _ _

/-- The request of a checkpoint call is issued: what holds then. -/
theorem begin_active {s s' : Session} {env : Environment} {id : String} {value : Job}
    {flush : Bool} (h : s.update env id (beginCheckpoint value flush) = some s') :
    s'.activeAt id = true := by
  obtain ⟨new, hu⟩ := update_spec h
  simp [activeAt, hu.jobs, beginCheckpoint, startCheckpoint]

theorem checkpoint_moves {s : Session} {env : Environment} {id : String} {flush : Bool}
    {timeoutMs : Int} {res : Session × Option Response} (hslot : slot id)
    (h : s.ltkitSessionCheckpoint env id flush timeoutMs = some res) : Moves slot s res.1 := by
  unfold ltkitSessionCheckpoint at h
  split at h
  · obtain rfl := Option.some.inj h
    exact .refl
  · split at h
    · obtain rfl := Option.some.inj h
      exact notActive_moves s
    · next value hvalue =>
        split at h
        · split at h
          · obtain rfl := Option.some.inj h
            exact .one (.error _)
          · obtain rfl := Option.some.inj h
            exact reply_moves s env _ _
        · split at h
          · obtain rfl := Option.some.inj h
            exact notActive_moves s
          · next hstopped =>
              split at h
              · obtain rfl := Option.some.inj h
                exact .one (.error _)
              · next hfree =>
                  simp only [Bool.or_eq_true, Bool.not_eq_eq_eq_not, Bool.not_true, not_or,
                    Bool.not_eq_true, Bool.not_eq_false, DiskCheckpoint.idle_iff] at hfree
                  obtain ⟨⟨hact, hidle⟩, hcomp⟩ := hfree
                  obtain ⟨t, ht, h⟩ := Option.bind_eq_some_iff.mp h
                  have hbegin : Moves slot s t := .one (.work env id hvalue
                    (.begin hslot flush (Bool.eq_false_iff.mpr hstopped) hact hidle hcomp) ht)
                  split at h
                  · obtain ⟨u, hu, rfl⟩ := Option.map_eq_some_iff.mp h
                    exact hbegin.trans (resumeCheckpoint_moves hslot (begin_active ht) hu)
                  · obtain rfl := Option.some.inj h
                    exact hbegin

theorem metadata_moves {s : Session} {env : Environment} {id : String} {timeoutMs : Int}
    {res : Session × Option Response} (h : s.ltkitSessionMetadata env id timeoutMs = some res) :
    Moves slot s res.1 := by
  unfold ltkitSessionMetadata at h
  split at h
  · obtain rfl := Option.some.inj h
    exact .refl
  · split at h
    · obtain rfl := Option.some.inj h
      exact notActive_moves s
    · split at h
      · obtain rfl := Option.some.inj h
        exact reply_moves s env _ _
      · split at h
        · obtain rfl := Option.some.inj h
          exact notActive_moves s
        · split at h
          · obtain ⟨t, ht, rfl⟩ := Option.map_eq_some_iff.mp h
            exact metadataResult_moves ht
          · split at h
            · obtain ⟨t, ht, rfl⟩ := Option.map_eq_some_iff.mp h
              exact resumeMetadata_moves ht
            · obtain rfl := Option.some.inj h
              exact .refl

theorem resumeNextEvent_moves {s : Session} {env : Environment} {res : Session × Response}
    (h : s.resumeNextEvent env = some res) : Moves slot s res.1 := by
  unfold resumeNextEvent at h
  split at h
  · obtain rfl := Option.some.inj h
    exact .refl
  · split at h
    · obtain rfl := Option.some.inj h
      exact .refl
    · next json hfront =>
        split at h
        · obtain rfl := Option.some.inj h
          exact fail_moves s _ _
        · obtain ⟨t, ht, rfl⟩ := Option.map_eq_some_iff.mp h
          exact .one (.read env json hfront ht)

theorem nextEvent_moves {s : Session} {env : Environment} {timeoutMs : Int}
    {res : Session × Option Response} (h : s.ltkitSessionNextEvent env timeoutMs = some res) :
    Moves slot s res.1 := by
  unfold ltkitSessionNextEvent at h
  split at h
  · obtain rfl := Option.some.inj h
    exact .refl
  · split at h
    · obtain ⟨t, ht, rfl⟩ := Option.map_eq_some_iff.mp h
      exact resumeNextEvent_moves ht
    · obtain rfl := Option.some.inj h
      exact .refl

theorem remove_moves (s : Session) (id : String) (deleteFiles : Bool) :
    Moves slot s (s.ltkitSessionRemove id deleteFiles).1 ∨
      Life s (s.ltkitSessionRemove id deleteFiles).1 := by
  cases hvalue : s.jobs.lookup id with
  | none =>
      simp only [ltkitSessionRemove, hvalue]
      exact Or.inl .refl
  | some value =>
      cases hactive : value.checkpoint.active with
      | false => exact Or.inr (.remove id value deleteFiles hvalue hactive)
      | true =>
          simp only [ltkitSessionRemove, hvalue, hactive, if_true]
          exact Or.inl (fail_moves s _ _)

theorem takeLastError_moves (s : Session) (env : Environment) :
    Moves slot s (s.ltkitSessionTakeLastError env).1 := by
  simp only [ltkitSessionTakeLastError]
  split
  · exact .one (.error "")
  · exact .one (.error "")

theorem status_moves (s : Session) (env : Environment) (id : String) :
    Moves slot s (s.ltkitSessionStatus env id).1 := by
  unfold ltkitSessionStatus
  split
  · exact fail_moves s _ _
  · exact reply_moves s env _ _

/-- A body that only reads the job, or tunes its torrent. -/
theorem same_job (value : Job) {actions : List Action} (h : Tuning actions) (answer : Reply) :
    value.Selects (value, actions, answer).1 ∧ Tuning (value, actions, answer).2.1 :=
  ⟨.refl value, h⟩

/-- What holds for the part of a call before its arguments are checked. -/
theorem checked_moves {s : Session} {p : Prop} [Decidable p] {response : Response}
    {body : Option (Session × Response)} {r : Session × Response}
    (hbody : body = some r → Moves slot s r.1)
    (h : (if p then some (s, response) else body) = some r) : Moves slot s r.1 := by
  split at h
  · obtain rfl := Option.some.inj h
    exact .refl
  · exact hbody h

/-- A call for a checkpoint. -/
def IsCheckpoint (api : Api) (id : String) : Prop :=
  ∃ flush timeoutMs, api = .checkpoint id flush timeoutMs

/-- A call that neither adds nor removes stays within the moves up to its wait. -/
theorem enter_moves_inside (slot : String → Prop) {s : Session} {env : Environment} {api : Api}
    {res : Session × Option Response} (hadd : ∀ request, api ≠ .add request)
    (hremove : ∀ id deleteFiles, api ≠ .remove id deleteFiles)
    (hslot : ∀ id, IsCheckpoint api id → slot id) (h : s.enter env api = some res) :
    Moves slot s res.1 := by
  have hret : ∀ {o : Option (Session × Response)}, (∀ r, o = some r → Moves slot s r.1) →
      o.map returning = some res → Moves slot s res.1 := by
    intro o ho hr
    obtain ⟨r, hor, rfl⟩ := Option.map_eq_some_iff.mp hr
    exact ho r hor
  cases api with
  | add request => exact absurd rfl (hadd request)
  | metadata id timeoutMs => exact metadata_moves h
  | selectFiles id indexes primary =>
      exact hret (fun r => checked_moves
        (selection_moves fun value => selectFiles_spec env value indexes primary)) h
  | setFilePriority id fileIndex priority =>
      exact hret (fun r => checked_moves
        (selection_moves fun value => setFilePriority_spec env value fileIndex priority)) h
  | setPiecePriority id pieceIndex priority =>
      exact hret (fun r => checked_moves
        (selection_moves fun value => setPiecePriority_spec env value pieceIndex priority)) h
  | start id =>
      exact hret (fun r => onActive_moves fun value => same_job value (.cons rfl .nil) _) h
  | pause id =>
      exact hret (fun r => onActive_moves fun value => same_job value (.cons rfl .nil) _) h
  | status id =>
      obtain rfl := Option.some.inj h
      exact status_moves s env id
  | pieces id =>
      refine hret (fun r => onActive_moves fun value => ?_) h
      split
      · exact same_job value .nil _
      · exact same_job value .nil _
  | pieceCompletion id =>
      refine hret (fun r => onActive_moves fun value => ?_) h
      split
      · exact same_job value .nil _
      · exact same_job value .nil _
  | updateStreamingWindow id fileIndex byteOffset criticalBytes warmBytes rate edges =>
      exact hret (fun r => checked_moves (selection_moves fun value =>
        updateStreamingWindow_spec env value fileIndex byteOffset criticalBytes warmBytes rate
          edges)) h
  | clearStreamingWindow id =>
      exact hret (fun r => selection_moves fun value => clearStreamingWindow_spec env value) h
  | checkpoint id flush timeoutMs =>
      exact checkpoint_moves (hslot id ⟨flush, timeoutMs, rfl⟩) h
  | remove id deleteFiles => exact absurd rfl (hremove id deleteFiles)
  | nextEvent timeoutMs => exact nextEvent_moves h
  | takeLastError =>
      obtain rfl := Option.some.inj h
      exact takeLastError_moves s env
  | wake =>
      obtain rfl := Option.some.inj h
      exact .one .wake

/-- A call stays within the moves up to its wait, or begins or ends the life of a job. -/
theorem enter_moves (slot : String → Prop) {s : Session} {env : Environment} {api : Api}
    {res : Session × Option Response} (hslot : ∀ id, IsCheckpoint api id → slot id)
    (h : s.enter env api = some res) : Moves slot s res.1 ∨ Life s res.1 := by
  cases api with
  | add request =>
      obtain ⟨r, hr, rfl⟩ := Option.map_eq_some_iff.mp h
      exact add_moves hr
  | remove id deleteFiles =>
      obtain rfl := Option.some.inj h
      exact remove_moves s id deleteFiles
  | _ => exact Or.inl (enter_moves_inside slot (by simp) (by simp) hslot h)

/-- A call stays within the moves after its wait, too. A checkpoint call waits only while its
    request occupies the slot. -/
theorem resume_moves (slot : String → Prop) {s : Session} {env : Environment} {g : Nat} {api : Api}
    {res : Session × Response}
    (hslot : ∀ id, IsCheckpoint api id → slot id ∧ s.activeAt id = true)
    (h : s.resume env g api = some res) : Moves slot s res.1 := by
  cases api with
  | metadata id timeoutMs => exact resumeMetadata_moves h
  | checkpoint id flush timeoutMs =>
      obtain ⟨hs, ha⟩ := hslot id ⟨flush, timeoutMs, rfl⟩
      exact resumeCheckpoint_moves hs ha h
  | nextEvent timeoutMs => exact resumeNextEvent_moves h
  | _ => cases h

/-! ## What a call leaves in the trace -/

/-- The trace has grown by entries that satisfy `p`. -/
def Grown (p : Entry → Prop) (s s' : Session) : Prop :=
  ∃ new, s'.trace = s.trace ++ new ∧ ∀ e ∈ new, p e

namespace Grown

variable {p q : Entry → Prop} {s t u : Session}

theorem same (h : t.trace = s.trace) : Grown p s t :=
  ⟨[], by rw [h, List.append_nil], fun e he => by cases he⟩

theorem record {e : Entry} (he : p e) : Grown p s (s.record e) :=
  ⟨[e], rfl, fun _ hx => List.mem_singleton.mp hx ▸ he⟩

theorem trans (h : Grown p s t) (h' : Grown p t u) : Grown p s u := by
  obtain ⟨new, ht, hnew⟩ := h
  obtain ⟨new', ht', hnew'⟩ := h'
  refine ⟨new ++ new', by rw [ht', ht, List.append_assoc], fun e he => ?_⟩
  rcases List.mem_append.mp he with he | he
  · exact hnew e he
  · exact hnew' e he

theorem mono (h : Grown p s t) (hpq : ∀ e, p e → q e) : Grown q s t := by
  obtain ⟨new, ht, hnew⟩ := h
  exact ⟨new, ht, fun e he => hpq e (hnew e he)⟩

end Grown

/-- The actions of a call on one job are commands and the beginnings of rounds. -/
def OnlyRequests (actions : List Action) : Prop :=
  ∀ a ∈ actions, (∃ c, a = .command c) ∨ ∃ h flush completion, a = .began h flush completion

theorem startWaitingCompletion_onlyRequests (value : Job) :
    OnlyRequests (startWaitingCompletion value).2 := by
  rcases startWaitingCompletion_cases value with ⟨heq, _⟩ | ⟨_, _, _, heq⟩ <;> rw [heq] <;>
    simp [OnlyRequests]

theorem Work.onlyRequests {slot closing : Prop} {env : Environment} {value : Job}
    {worked : Job × List Action} (h : Work slot closing env value worked) :
    OnlyRequests worked.2 := by
  cases h with
  | select hselects htuning =>
      intro a ha
      obtain ⟨c, rfl, _⟩ := htuning a ha
      exact Or.inl ⟨c, rfl⟩
  | reject => simp [OnlyRequests]
  | begin hslot flush hstopped hactive hidle hcompletion =>
      rw [beginCheckpoint_eq]
      intro a ha
      rcases List.mem_cons.mp ha with rfl | ha
      · exact Or.inr ⟨_, _, _, rfl⟩
      · exact Or.inl ⟨_, List.mem_singleton.mp ha⟩
  | abandon hslot hactive =>
      unfold abandonCheckpoint
      split
      · exact startWaitingCompletion_onlyRequests _
      · simp [OnlyRequests]
  | finish hslot hactive hdone => exact startWaitingCompletion_onlyRequests _

end Session

/-- The entry marks the beginning or the end of a call. -/
def Entry.isCall : Entry → Bool
  | .called _ _ => true
  | .returned _ _ _ => true
  | _ => false

/-- What a call can leave in the trace between its beginning and its end. -/
inductive Entry.FromCall : Entry → Prop
  | command (c : Command) : FromCall (.command c)
  | began (id : String) (h : Handle) (flush completion : Bool) :
      FromCall (.began id h flush completion)
  | take (id json : String) : FromCall (.mail (.take id json))
  | born (id : String) : FromCall (.mail (.begin id))
  | metadata (id json : String) : FromCall (.mail (.submit id .metadata json))

namespace Session

variable {slot : String → Prop}

theorem emits_fromCall {id : String} {actions : List Action} {new : List Entry}
    (h : Emits id actions new) (hactions : OnlyRequests actions) : ∀ e ∈ new, e.FromCall := by
  induction actions generalizing new with
  | nil =>
      obtain rfl : new = [] := h
      exact fun e he => by cases he
  | cons a actions ih =>
      have hrest : OnlyRequests actions := fun b hb => hactions b (List.mem_cons_of_mem _ hb)
      rcases hactions a List.mem_cons_self with ⟨c, rfl⟩ | ⟨handle, flush, completion, rfl⟩
      · obtain ⟨rest, rfl, hr⟩ := emits_cons (by simp [Exact]) rfl h
        intro e he
        rcases List.mem_cons.mp he with rfl | he
        · exact .command c
        · exact ih hr hrest e he
      · obtain ⟨rest, rfl, hr⟩ := emits_cons (by simp [Exact]) rfl h
        intro e he
        rcases List.mem_cons.mp he with rfl | he
        · exact .began id handle flush completion
        · exact ih hr hrest e he

theorem Move.fromCall {s s' : Session} (h : Move slot s s') : Grown Entry.FromCall s s' := by
  cases h with
  | error e => exact .same rfl
  | wake => exact .same rfl
  | read env json hfront hpop =>
      obtain ⟨_, _, _, new, htrace, hnew⟩ := popEvent_spec hpop
      refine ⟨new, htrace, fun e he => ?_⟩
      obtain ⟨id, rfl⟩ := hnew e he
      exact .take id json
  | work env id hvalue hwork hupdate =>
      obtain ⟨new, hu⟩ := update_spec hupdate
      exact ⟨new, hu.trace, emits_fromCall hu.emits hwork.onlyRequests⟩

theorem Moves.fromCall {s s' : Session} (h : Moves slot s s') : Grown Entry.FromCall s s' := by
  induction h with
  | refl => exact .same rfl
  | tail _ hmove ih => exact ih.trans hmove.fromCall

theorem Life.fromCall {s s' : Session} (h : Life s s') : Grown Entry.FromCall s s' := by
  cases h with
  | insert env r params desired handle hrunning hfree hcan hadd hinsert =>
      obtain ⟨_, _, _, _, rest, htrace, hrest⟩ := insertJob_spec hinsert
      refine ⟨_, htrace, fun e he => ?_⟩
      rcases List.mem_cons.mp he with rfl | he
      · exact .command _
      · rcases List.mem_cons.mp he with rfl | he
        · exact .born _
        · rw [hrest e he]
          exact .metadata _ _
  | remove id value deleteFiles hvalue hactive =>
      simp only [ltkitSessionRemove, hvalue, hactive, Bool.false_eq_true, if_false]
      split
      · exact .same rfl
      · exact .record (s := s) (e := .command (.removeTorrent value.handle deleteFiles))
          (.command _)

theorem enter_fromCall {s : Session} {env : Environment} {api : Api}
    {res : Session × Option Response} (h : s.enter env api = some res) :
    Grown Entry.FromCall s res.1 := by
  rcases enter_moves (fun _ => True) (fun _ _ => trivial) h with hm | hm
  · exact hm.fromCall
  · exact hm.fromCall

end Session

end LibtorrentKit
