/-
  `ltkit_session_add` when something throws.

  `guarded` turns whatever is thrown into a code, and undoes nothing. The call commits four
  things one after the other: the torrent in libtorrent, the room in the mailbox, the job, and
  the first event. `AddPoint` names the operations that may throw; one that throws has done
  nothing itself, but for `push_back` of the event, before which `critical` has already taken
  the one-shot kind.

  `addGuarded_none` is the link to `Session.Api`: when nothing throws, the call is the one of
  `Session.enter`. `addGuarded_atomic_iff`: a failed add leaves nothing behind exactly when it did
  not fail after libtorrent had accepted the torrent. `LeavesNothing.retry` says what that is good
  for: a retry ends as it would have without the failed add.
-/
import LibtorrentKit.Lib.Throw
import LibtorrentKit.Session.Adding

namespace LibtorrentKit

open Throw

/-- What an operation throws, as far as `guarded` tells exceptions apart. -/
inductive Thrown where
  | badAlloc
  | exception
  | unknown
  deriving DecidableEq, Repr

/-- The operations of `ltkit_session_add` that may throw, in their order. -/
inductive AddPoint where
  /-- `session->jobs.find(identifier)`. -/
  | find
  /-- `session->events.can_add(identifier)`. -/
  | canAdd
  /-- `std::filesystem::path(download_directory)`. -/
  | path
  /-- `parse_magnet_uri`, `load_torrent_buffer` or `read_resume_data`. -/
  | params
  /-- Filling in the parameters, and copying the priorities. -/
  | prepare
  /-- `engine->add_torrent`. -/
  | addTorrent
  /-- `handle.torrent_file()` for `metadata_ready`. -/
  | torrentFile
  /-- `session->events.add(identifier)`. -/
  | reserve
  /-- `session->jobs.emplace`. -/
  | emplace
  /-- `handle.torrent_file()` before the first event. -/
  | torrentFileAgain
  /-- The text of the first event. -/
  | eventText
  /-- `critical_.push_back` in `enqueue`. -/
  | pushEvent
  /-- The text that `fail` stores. -/
  | failText
  deriving DecidableEq, Repr

/-- `critical` of a one-shot kind, up to a `push_back` that throws. -/
def EventMailbox.claim (m : EventMailbox) (id : String) (kind : Kind) : EventMailbox :=
  match m.jobs_.lookup id with
  | none => m
  | some job => { m with
      jobs_ := m.jobs_.insert id { job with
        deliveredOrPending := insert kind job.deliveredOrPending
        lastError := none
        status := none } }

namespace Session

/-- The handlers of `guarded`. -/
def caught (e : Thrown) (s : Session) : Response × Session :=
  match e with
  | .badAlloc => (s.fail .allocationLimit "A native allocation limit was reached.").swap
  | .exception => (s.fail .nativeFailure "The native torrent operation failed.").swap
  | .unknown => (s.fail .unknown "An unknown native torrent error occurred.").swap

/-- `fail`, whose text must be allocated. -/
def failing {π : Type} [DecidableEq π] (fault : Option (π × Thrown)) (here : π) (code : Code)
    (safeMessage : String) : Prog Session Thrown Response := do
  reach fault here
  edit (·.setError safeMessage)
  pure { code }

/-- The first event of a torrent that has its metadata. -/
def announce (fault : Option (AddPoint × Thrown)) (env : Environment) (id : String) :
    Prog Session Thrown Unit := do
  reach fault .eventText
  match strike fault .pushEvent with
  | some e => do
      edit fun s => { s with events := s.events.claim id .metadata }
      throw e
  | none => attempt fun s => s.enqueue env id .metadata (metadataReadyJson id)

/-- The end of `ltkit_session_add`: libtorrent has accepted the torrent. -/
def commit (fault : Option (AddPoint × Thrown)) (env : Environment) (id : String) (value : Job) :
    Prog Session Thrown Response := do
  reach fault .torrentFile
  reach fault .reserve
  edit fun s => { s with events := s.events.add id, trace := s.trace ++ [.mail (.begin id)] }
  reach fault .emplace
  edit fun s => { s with jobs := s.jobs.insert id value }
  reach fault .torrentFileAgain
  if (env.torrentFile value.handle).isSome then do
    announce fault env id
    pure { code := .ok }
  else pure { code := .ok }

/-- The part of `ltkit_session_add` that hands the torrent to libtorrent. -/
def admission (fault : Option (AddPoint × Thrown)) (env : Environment) (r : AddRequest)
    (params : AddTorrentParams) (desired : List Int) : Prog Session Thrown Response := do
  reach fault .addTorrent
  match env.addTorrent params with
  | none => failing fault .failText .nativeFailure "The torrent could not be added."
  | some handle => do
      edit (·.record (.command (.addTorrent params handle)))
      commit fault env r.identifier (newJob env r params desired handle)

/-- The part of `ltkit_session_add` that reads the request. -/
def readRequest (fault : Option (AddPoint × Thrown)) (env : Environment) (r : AddRequest) :
    Prog Session Thrown Response := do
  reach fault .params
  match addParams env r with
  | .error (code, safeMessage) => failing fault .failText code safeMessage
  | .ok params => do
      reach fault .prepare
      let params := withSettings r params
      let desired := desiredFiles r params
      match addPriorities r params desired with
      | none => failing fault .failText .invalidFileIndex "A requested file index is invalid."
      | some priorities =>
          admission fault env r { params with filePriorities := priorities } desired

/-- The function that `ltkit_session_add` hands to `guarded`. -/
def addBody (fault : Option (AddPoint × Thrown)) (env : Environment) (r : AddRequest) :
    Prog Session Thrown Response := do
  let s ← get
  if s.shuttingDown then
    failing fault .failText .sessionShutDown "The torrent session has shut down."
  else do
    reach fault .find
    if r.identifier ∈ s.jobs then
      failing fault .failText .duplicateIdentifier "The torrent identifier already exists."
    else do
      reach fault .canAdd
      if !s.events.canAdd r.identifier then
        failing fault .failText .allocationLimit
          "Drain events and remove unused torrents before adding more torrents."
      else do
        reach fault .path
        if r.downloadDirectory.toList.head? ≠ some '/' then
          failing fault .failText .invalidArgument "The download directory must be absolute."
        else readRequest fault env r

/-- `ltkit_session_add` with its exceptions: `fault` says which operation throws, if any. -/
def addGuarded (fault : Option (AddPoint × Thrown)) (s : Session) (env : Environment)
    (r : AddRequest) : Option (Response × Session) :=
  if !isValidAdd r then some (s.fail .invalidArgument "The add request is invalid.").swap
  else guarded caught (addBody fault env r) s

/-! ## Without exceptions -/

section

variable {π : Type} {s s' : Session} {env : Environment} {r : AddRequest}
  {res : Except Thrown Response}

theorem failing_ends [DecidableEq π] {fault : Option (π × Thrown)} {here : π} {code : Code}
    {m : String} (h : Ends (failing fault here code m) s res s') :
    (res = .ok { code } ∧ s' = s.setError m) ∨
      ∃ e, strike fault here = some e ∧ s' = s ∧ res = .error e := by
  unfold failing at h
  rw [ends_reach_bind, ends_edit_bind, ends_pure] at h
  exact h.imp_left And.right

/-- How a function that may throw ends when nothing does: as the one that cannot. -/
def EndsAs {α : Type} (p : Prog Session Thrown α) (s : Session) (plain : Option (Session × α)) :
    Prop :=
  ∀ res s', Ends p s res s' ↔ ∃ response, res = .ok response ∧ plain = some (s', response)

theorem failing_none [DecidableEq π] (here : π) (s : Session) (code : Code) (m : String) :
    EndsAs (failing none here code m) s (some (s.fail code m)) := by
  intro res s'
  unfold failing
  rw [ends_reach_bind, ends_edit_bind, ends_pure]
  simp only [strike_none, true_and, reduceCtorEq, false_and, exists_false, or_false]
  constructor
  · rintro ⟨rfl, rfl⟩
    exact ⟨_, rfl, rfl⟩
  · rintro ⟨response, rfl, heq⟩
    obtain ⟨rfl, rfl⟩ := Prod.mk.inj (Option.some.inj heq)
    exact ⟨rfl, rfl⟩

theorem reach_none [DecidableEq π] {α : Type} {p : Unit → Prog Session Thrown α} {s : Session}
    {plain : Option (Session × α)} {here : π} (h : EndsAs (p ()) s plain) :
    EndsAs (reach none here >>= p) s plain := by
  intro res s'
  rw [ends_reach_bind, h res s']
  simp only [strike_none, true_and, reduceCtorEq, false_and, exists_false, or_false]

/-- Without an exception the commit is the insertion of the job. -/
theorem commit_none {params : AddTorrentParams} {value : Job} {handle : Handle}
    (hhandle : value.handle = handle) :
    EndsAs (commit none env r.identifier value) (s.record (.command (.addTorrent params handle)))
      ((s.insertJob env r.identifier params value).map fun s => (s, { code := .ok })) := by
  subst hhandle
  intro res s'
  have hok : ∀ o : Option Session,
      (∃ t, o = some t ∧ res = .ok ({ code := .ok } : Response) ∧ s' = t) ↔
        ∃ response, res = .ok response ∧
          (o.map fun s => (s, ({ code := .ok } : Response))) = some (s', response) := by
    intro o
    constructor
    · rintro ⟨t, rfl, rfl, rfl⟩
      exact ⟨_, rfl, rfl⟩
    · rintro ⟨response, rfl, heq⟩
      obtain ⟨t, rfl, hpair⟩ := Option.map_eq_some_iff.mp heq
      obtain ⟨rfl, rfl⟩ := Prod.mk.inj hpair
      exact ⟨_, rfl, rfl, rfl⟩
  rw [← hok]
  unfold commit announce insertJob
  simp only [ends_reach_bind, ends_edit_bind, strike_none, true_and, reduceCtorEq, false_and,
    exists_false, or_false]
  split
  · rw [ends_bind]
    simp only [ends_reach_bind, ends_attempt, ends_pure, strike_none, true_and, reduceCtorEq,
      false_and, exists_false, or_false, and_false]
    constructor
    · rintro ⟨_, t, ht⟩
      exact ⟨t, ht⟩
    · rintro ⟨t, ht⟩
      exact ⟨(), t, ht⟩
  · rw [ends_pure]
    simp only [Option.some.injEq, exists_eq_left']

theorem readRequest_none :
    EndsAs (readRequest none env r) s
      (match addParams env r with
      | .error (code, safeMessage) => some (s.fail code safeMessage)
      | .ok params =>
          let params := withSettings r params
          let desired := desiredFiles r params
          match addPriorities r params desired with
          | none => some (s.fail .invalidFileIndex "A requested file index is invalid.")
          | some priorities =>
              let params := { params with filePriorities := priorities }
              match env.addTorrent params with
              | none => some (s.fail .nativeFailure "The torrent could not be added.")
              | some handle =>
                  (s.insertJob env r.identifier params (newJob env r params desired handle)).map
                    fun s => (s, { code := .ok })) := by
  unfold readRequest
  refine reach_none ?_
  cases addParams env r with
  | error failure => exact failing_none _ s _ _
  | ok params =>
      refine reach_none ?_
      dsimp only
      cases addPriorities r (withSettings r params) (desiredFiles r (withSettings r params)) with
      | none => exact failing_none _ s _ _
      | some priorities =>
          unfold admission
          refine reach_none ?_
          dsimp only
          cases env.addTorrent { withSettings r params with filePriorities := priorities } with
          | none => exact failing_none _ s _ _
          | some handle =>
              intro res s'
              dsimp only
              rw [ends_edit_bind]
              exact commit_none rfl res s'

theorem addBody_none (hvalid : isValidAdd r = true) :
    EndsAs (addBody none env r) s (s.ltkitSessionAdd env r) := by
  have hinvalid : ¬ (!isValidAdd r) = true := by simp [hvalid]
  unfold addBody ltkitSessionAdd
  rw [if_neg hinvalid]
  intro res s'
  rw [ends_get_bind]
  by_cases hrunning : s.shuttingDown = true
  · rw [if_pos hrunning, if_pos hrunning]
    exact failing_none _ s _ _ res s'
  · rw [if_neg hrunning, if_neg hrunning]
    refine reach_none ?_ res s'
    by_cases hfree : r.identifier ∈ s.jobs
    · rw [if_pos hfree, if_pos hfree]
      exact failing_none _ s _ _
    · rw [if_neg hfree, if_neg hfree]
      refine reach_none ?_
      by_cases hcan : (!s.events.canAdd r.identifier) = true
      · rw [if_pos hcan, if_pos hcan]
        exact failing_none _ s _ _
      · rw [if_neg hcan, if_neg hcan]
        refine reach_none ?_
        by_cases hpath : r.downloadDirectory.toList.head? ≠ some '/'
        · rw [if_pos hpath, if_pos hpath]
          exact failing_none _ s _ _
        · rw [if_neg hpath, if_neg hpath]
          exact readRequest_none

theorem guarded_none {α : Type} {handler : Thrown → Session → α × Session}
    {p : Prog Session Thrown α} {plain : Option (Session × α)} (h : EndsAs p s plain) :
    guarded handler p s = plain.map Prod.swap := by
  apply Option.ext
  rintro ⟨response, s'⟩
  rw [guarded_eq_some, h, Option.map_eq_some_iff]
  constructor
  · rintro (⟨_, hok, hplain⟩ | ⟨e, t, hthrown, _⟩)
    · obtain rfl := Except.ok.inj hok
      exact ⟨_, hplain, rfl⟩
    · obtain ⟨_, herror, _⟩ := (h _ _).mp hthrown
      cases herror
  · rintro ⟨⟨t, response'⟩, hplain, heq⟩
    obtain ⟨rfl, rfl⟩ := Prod.mk.inj heq
    exact Or.inl ⟨_, rfl, hplain⟩

/-- When nothing throws, the call is the one without exceptions. -/
theorem addGuarded_none (s : Session) (env : Environment) (r : AddRequest) :
    addGuarded none s env r = (s.ltkitSessionAdd env r).map Prod.swap := by
  unfold addGuarded
  split
  · next hinvalid => simp [ltkitSessionAdd, hinvalid]
  · next hvalid => exact guarded_none (addBody_none (by simpa using hvalid))

end

end Session

/-! ## With an exception -/

/-- The torrents in libtorrent, by what it was asked. -/
def torrentsIn (log : List Entry) : Finset Handle :=
  log.foldl (fun held e =>
    match e with
    | .command (.addTorrent _ handle) => insert handle held
    | .command (.removeTorrent handle _) => held.erase handle
    | _ => held) ∅

theorem torrentsIn_added (log : List Entry) (params : AddTorrentParams) (handle : Handle) :
    torrentsIn (log ++ [.command (.addTorrent params handle)]) = insert handle (torrentsIn log) := by
  unfold torrentsIn
  rw [List.foldl_append]
  rfl

/-- Nothing of a call is left: in libtorrent, among the jobs and in the mailbox. -/
structure LeavesNothing (s s' : Session) : Prop where
  torrents : torrentsIn s'.trace = torrentsIn s.trace
  jobs : s'.jobs = s.jobs
  events : s'.events = s.events

/-- An exception at this point leaves something behind in an add that libtorrent has accepted:
    `known` says that the torrent was there before, `metadata` that an event is due. -/
def AddPoint.strands (known metadata : Bool) : AddPoint → Bool
  | .torrentFile => !known
  | .reserve => !known
  | .emplace => true
  | .torrentFileAgain => true
  | .eventText => metadata
  | .pushEvent => metadata
  | _ => false

/-- The call fails after libtorrent has accepted the torrent, which it did not have before; or
    after the room in the mailbox is taken. -/
def Strands (fault : Option (AddPoint × Thrown)) (s : Session) (env : Environment)
    (r : AddRequest) : Prop :=
  ∃ params handle f, s.addTarget env r = some params ∧ env.addTorrent params = some handle ∧
    fault = some f ∧ f.1.strands (decide (handle ∈ torrentsIn s.trace))
      (env.torrentFile handle).isSome = true

namespace Session

variable {fault : Option (AddPoint × Thrown)} {s s' : Session} {env : Environment}
  {r : AddRequest} {res : Except Thrown Response}

/-- How an add ends. -/
inductive AddEnd (fault : Option (AddPoint × Thrown)) (s : Session) (env : Environment)
    (r : AddRequest) : Except Thrown Response → Session → Prop
  | refused {code : Code} (m : String)
      (hnot : ∀ params, s.addTarget env r = some params → env.addTorrent params = none) :
      AddEnd fault s env r (.ok { code }) (s.setError m)
  | early {p : AddPoint} {e : Thrown} (hfault : fault = some (p, e))
      (hp : ∀ known metadata, p.strands known metadata = false) :
      AddEnd fault s env r (.error e) s
  | torrent {params : AddTorrentParams} {handle : Handle} {p : AddPoint} {e : Thrown}
      (htarget : s.addTarget env r = some params) (hadd : env.addTorrent params = some handle)
      (hfault : fault = some (p, e)) (hp : ∀ known metadata, p.strands known metadata = !known) :
      AddEnd fault s env r (.error e) (s.record (.command (.addTorrent params handle)))
  | room {params : AddTorrentParams} {handle : Handle} {p : AddPoint} {e : Thrown} {s' : Session}
      (htarget : s.addTarget env r = some params) (hadd : env.addTorrent params = some handle)
      (hfault : fault = some (p, e))
      (hp : ∀ known, p.strands known (env.torrentFile handle).isSome = true)
      (hroom : r.identifier ∈ s'.events.jobs_) : AddEnd fault s env r (.error e) s'
  | added {s' : Session} : AddEnd fault s env r (.ok { code := .ok }) s'

theorem failing_addEnd {code : Code} {m : String} (h : Ends (failing fault .failText code m) s res s')
    (hnot : ∀ params, s.addTarget env r = some params → env.addTorrent params = none) :
    AddEnd fault s env r res s' := by
  rcases failing_ends h with ⟨rfl, rfl⟩ | ⟨e, he, rfl, rfl⟩
  · exact .refused m hnot
  · exact .early (strike_eq_some.mp he) fun _ _ => rfl

theorem mem_events_add (m : EventMailbox) (id : String) : id ∈ (m.add id).jobs_ := by
  unfold EventMailbox.add
  split
  · assumption
  · exact Finmap.mem_insert.mpr (Or.inl rfl)

theorem mem_events_claim {m : EventMailbox} {id : String} (kind : Kind) (h : id ∈ m.jobs_) :
    id ∈ (m.claim id kind).jobs_ := by
  unfold EventMailbox.claim
  split
  · exact h
  · exact Finmap.mem_insert.mpr (Or.inl rfl)

/-- From the acceptance on, an exception finds the torrent in libtorrent, and once the room is
    taken, in the mailbox. -/
theorem commit_addEnd {params : AddTorrentParams} {value : Job} {handle : Handle}
    (hhandle : value.handle = handle) (htarget : s.addTarget env r = some params)
    (hadd : env.addTorrent params = some handle)
    (h : Ends (commit fault env r.identifier value)
      (s.record (.command (.addTorrent params handle))) res s') : AddEnd fault s env r res s' := by
  subst hhandle
  unfold commit at h
  rw [ends_reach_bind] at h
  rcases h with ⟨_, h⟩ | ⟨e, he, rfl, rfl⟩
  swap
  · exact .torrent htarget hadd (strike_eq_some.mp he) fun _ _ => rfl
  rw [ends_reach_bind] at h
  rcases h with ⟨_, h⟩ | ⟨e, he, rfl, rfl⟩
  swap
  · exact .torrent htarget hadd (strike_eq_some.mp he) fun _ _ => rfl
  rw [ends_edit_bind, ends_reach_bind] at h
  rcases h with ⟨_, h⟩ | ⟨e, he, rfl, rfl⟩
  swap
  · exact .room htarget hadd (strike_eq_some.mp he) (fun _ => rfl) (mem_events_add _ _)
  rw [ends_edit_bind, ends_reach_bind] at h
  rcases h with ⟨_, h⟩ | ⟨e, he, rfl, rfl⟩
  swap
  · exact .room htarget hadd (strike_eq_some.mp he) (fun _ => rfl) (mem_events_add _ _)
  split at h
  · next hmetadata =>
      rw [ends_bind] at h
      rcases h with ⟨_, t, _, h⟩ | ⟨e, h, rfl⟩
      · obtain ⟨rfl, _⟩ := ends_pure.mp h
        exact .added
      · unfold announce at h
        rw [ends_reach_bind] at h
        rcases h with ⟨_, h⟩ | ⟨e', he, rfl, heq⟩
        · split at h
          · next e' he =>
              rw [ends_edit_bind, ends_throw] at h
              obtain ⟨heq, rfl⟩ := h
              obtain rfl := Except.error.inj heq
              exact .room htarget hadd (strike_eq_some.mp he) (fun _ => hmetadata)
                (mem_events_claim _ (mem_events_add _ _))
          · cases (ends_attempt.mp h).1
        · obtain rfl := Except.error.inj heq
          exact .room htarget hadd (strike_eq_some.mp he) (fun _ => hmetadata)
            (mem_events_add _ _)
  · obtain ⟨rfl, _⟩ := ends_pure.mp h
    exact .added

/-- An operation that may throw before libtorrent is asked. -/
theorem reach_addEnd {p : Unit → Prog Session Thrown Response} {here : AddPoint}
    (hhere : ∀ known metadata, here.strands known metadata = false)
    (h : Ends (reach fault here >>= p) s res s')
    (hp : Ends (p ()) s res s' → AddEnd fault s env r res s') : AddEnd fault s env r res s' := by
  rcases ends_reach_bind.mp h with ⟨_, h⟩ | ⟨e, he, rfl, rfl⟩
  · exact hp h
  · exact .early (strike_eq_some.mp he) hhere

theorem readRequest_addEnd
    (htarget : s.addTarget env r =
      match addParams env r with
      | .error _ => none
      | .ok params =>
          (addPriorities r (withSettings r params)
            (desiredFiles r (withSettings r params))).map fun priorities =>
              { withSettings r params with filePriorities := priorities })
    (h : Ends (readRequest fault env r) s res s') : AddEnd fault s env r res s' := by
  unfold readRequest at h
  refine reach_addEnd (fun _ _ => rfl) h fun h => ?_
  cases hparams : addParams env r with
  | error failure =>
      rw [hparams] at h htarget
      exact failing_addEnd h fun params hp => by simp [htarget] at hp
  | ok params =>
      rw [hparams] at h htarget
      refine reach_addEnd (fun _ _ => rfl) h fun h => ?_
      dsimp only at h htarget
      cases hpriorities : addPriorities r (withSettings r params)
          (desiredFiles r (withSettings r params)) with
      | none =>
          rw [hpriorities] at h htarget
          exact failing_addEnd h fun params hp => by simp [htarget] at hp
      | some priorities =>
          rw [hpriorities] at h htarget
          unfold admission at h
          refine reach_addEnd (fun _ _ => rfl) h fun h => ?_
          cases hadd : env.addTorrent { withSettings r params with
              filePriorities := priorities } with
          | none =>
              rw [hadd] at h
              refine failing_addEnd h fun target hp => ?_
              obtain rfl := Option.some.inj (htarget.symm.trans hp)
              exact hadd
          | some handle =>
              rw [hadd] at h
              rw [ends_edit_bind] at h
              exact commit_addEnd rfl htarget hadd h

theorem addBody_addEnd (hvalid : isValidAdd r = true) (h : Ends (addBody fault env r) s res s') :
    AddEnd fault s env r res s' := by
  unfold addBody at h
  rw [ends_get_bind] at h
  split at h
  · next hrunning => exact failing_addEnd h fun params hp => by simp [addTarget, hrunning] at hp
  · next hrunning =>
      refine reach_addEnd (fun _ _ => rfl) h fun h => ?_
      split at h
      · next hfree => exact failing_addEnd h fun params hp => by simp [addTarget, hfree] at hp
      · next hfree =>
          refine reach_addEnd (fun _ _ => rfl) h fun h => ?_
          split at h
          · next hcan => exact failing_addEnd h fun params hp => by simp [addTarget, hcan] at hp
          · next hcan =>
              refine reach_addEnd (fun _ _ => rfl) h fun h => ?_
              split at h
              · next hpath =>
                  exact failing_addEnd h fun params hp => by simp [addTarget, hpath] at hp
              · next hpath =>
                  have hpass : ¬ (!isValidAdd r || s.shuttingDown || decide (r.identifier ∈ s.jobs)
                      || !s.events.canAdd r.identifier
                      || decide (r.downloadDirectory.toList.head? ≠ some '/')) = true := by
                    simp [hvalid, hrunning, hfree, hcan, not_not.mp hpath]
                  refine readRequest_addEnd ?_ h
                  unfold addTarget
                  exact if_neg hpass

/-! ## What a failed add leaves -/

/-- The last error is not part of what a call may leave behind. -/
theorem LeavesNothing.of_setError {t : Session} (m : String) :
    LeavesNothing s (t.setError m) ↔ LeavesNothing s t := by
  constructor <;> exact fun h => ⟨h.torrents, h.jobs, h.events⟩

/-- An exception is reported as a failure, and changes nothing else. -/
theorem caught_eq (e : Thrown) (s : Session) :
    ∃ code m, code ≠ Code.ok ∧ caught e s = ({ code }, s.setError m) := by
  cases e <;> exact ⟨_, _, by decide, rfl⟩

theorem addTarget_canAdd {params : AddTorrentParams} (h : s.addTarget env r = some params) :
    r.identifier ∉ s.events.jobs_ := by
  obtain ⟨-, -, -, hcan, -⟩ := addTarget_passes h
  simp only [EventMailbox.canAdd, Bool.and_eq_true, decide_eq_true_eq] at hcan
  exact hcan.2

/-- **Failed admission.** For every request, from every session, and for a failure at any point
    of the call: a failed add leaves nothing behind exactly when it did not fail after
    libtorrent had accepted the torrent. -/
theorem addGuarded_atomic_iff {response : Response}
    (h : addGuarded fault s env r = some (response, s')) (hcode : response.code ≠ .ok) :
    LeavesNothing s s' ↔ ¬ Strands fault s env r := by
  have hnothing : ∀ m, LeavesNothing s (s.setError m) := fun m => ⟨rfl, rfl, rfl⟩
  unfold addGuarded at h
  split at h
  · next hinvalid =>
      obtain ⟨rfl, rfl⟩ := Prod.mk.inj (Option.some.inj h)
      refine iff_of_true (hnothing _) ?_
      rintro ⟨params, _, _, htarget, _⟩
      simp [addTarget, hinvalid] at htarget
  · next hvalid =>
      have hend : ∀ {res t}, Ends (addBody fault env r) s res t → AddEnd fault s env r res t :=
        fun h => addBody_addEnd (by simpa using hvalid) h
      rcases guarded_eq_some.mp h with hok | ⟨e, t, hthrown, hcaught⟩
      · cases hend hok with
        | refused m hnot =>
            refine iff_of_true (hnothing m) ?_
            rintro ⟨params, handle, _, htarget, hadd, _⟩
            rw [hnot params htarget] at hadd
            cases hadd
        | added => exact absurd rfl hcode
      · obtain ⟨code, m, _, hm⟩ := caught_eq e t
        obtain ⟨rfl, rfl⟩ := Prod.mk.inj (hm.symm.trans hcaught)
        rw [LeavesNothing.of_setError]
        cases hend hthrown with
        | early hfault hp =>
            refine iff_of_true ⟨rfl, rfl, rfl⟩ ?_
            rintro ⟨params, handle, f, _, _, rfl, hf⟩
            obtain rfl := Option.some.inj hfault
            rw [hp] at hf
            cases hf
        | @torrent params handle p e htarget hadd hfault hp =>
            have hstrands : Strands fault s env r ↔ handle ∉ torrentsIn s.trace := by
              constructor
              · rintro ⟨params', handle', f, htarget', hadd', rfl, hf⟩
                obtain rfl := Option.some.inj hfault
                obtain rfl := Option.some.inj (htarget.symm.trans htarget')
                obtain rfl := Option.some.inj (hadd.symm.trans hadd')
                simpa [hp] using hf
              · intro hnew
                exact ⟨params, handle, _, htarget, hadd, hfault, by simpa [hp] using hnew⟩
            rw [hstrands, not_not]
            constructor
            · intro hleft
              have hsame : torrentsIn (s.trace ++ [.command (.addTorrent params handle)]) =
                  torrentsIn s.trace := hleft.torrents
              rw [torrentsIn_added] at hsame
              rw [← hsame]
              exact Finset.mem_insert_self _ _
            · intro hknown
              refine ⟨?_, rfl, rfl⟩
              show torrentsIn (s.trace ++ [_]) = _
              rw [torrentsIn_added, Finset.insert_eq_of_mem hknown]
        | @room params handle p e _ htarget hadd hfault hp hroom =>
            refine iff_of_false ?_ (not_not.mpr ⟨params, handle, _, htarget, hadd, hfault, hp _⟩)
            intro hleft
            rw [hleft.events] at hroom
            exact addTarget_canAdd htarget hroom

/-- An add is judged by the jobs and the mailbox alone: after a failed one that leaves nothing
    behind, a retry ends as it would have without it. -/
theorem LeavesNothing.retry (h : LeavesNothing s s') (hrunning : s'.shuttingDown = s.shuttingDown)
    (env : Environment) (r : AddRequest) :
    (s'.ltkitSessionAdd env r).map Prod.snd = (s.ltkitSessionAdd env r).map Prod.snd := by
  have hinsert : ∀ params value, (s'.insertJob env r.identifier params value).isSome =
      (s.insertJob env r.identifier params value).isSome := by
    intro params value
    unfold insertJob enqueue record
    simp only [h.events]
    split
    · split <;> rfl
    · rfl
  have hcode : ∀ params value,
      ((s'.insertJob env r.identifier params value).map fun s =>
        (s, ({ code := .ok } : Response))).map Prod.snd =
      ((s.insertJob env r.identifier params value).map fun s =>
        (s, ({ code := .ok } : Response))).map Prod.snd := by
    intro params value
    have hsome := hinsert params value
    cases hs : s.insertJob env r.identifier params value <;>
      cases hs' : s'.insertJob env r.identifier params value <;> simp [hs, hs'] at hsome ⊢
  unfold ltkitSessionAdd
  rw [hrunning, h.jobs, h.events]
  split
  · rfl
  · split
    · rfl
    · split
      · rfl
      · split
        · rfl
        · split
          · rfl
          · cases addParams env r with
            | error failure => rfl
            | ok params =>
                dsimp only
                cases addPriorities r (withSettings r params)
                    (desiredFiles r (withSettings r params)) with
                | none => rfl
                | some priorities =>
                    dsimp only
                    cases env.addTorrent { withSettings r params with
                        filePriorities := priorities } with
                    | none => rfl
                    | some handle => exact hcode _ _

/-- The look for a duplicate runs out of memory: nothing is left. -/
theorem addGuarded_early :
    ∃ s', addGuarded (some (.find, .badAlloc)) {} sampleEnvironment sampleRequest =
        some ({ code := .allocationLimit }, s') ∧
      LeavesNothing {} s' := by
  have h : addGuarded (some (.find, .badAlloc)) {} sampleEnvironment sampleRequest =
      some ({ code := .allocationLimit },
        ({} : Session).setError "A native allocation limit was reached.") := by
    rfl
  refine ⟨_, h, (addGuarded_atomic_iff h (by decide)).mpr ?_⟩
  rintro ⟨_, _, _, _, _, hfault, hstrands⟩
  obtain rfl := Option.some.inj hfault
  cases hstrands

/-- The mailbox runs out of memory for the new torrent: libtorrent keeps it. -/
theorem addGuarded_strands :
    ∃ s', addGuarded (some (.reserve, .badAlloc)) {} sampleEnvironment sampleRequest =
        some ({ code := .allocationLimit }, s') ∧
      torrentsIn s'.trace = {1} ∧ s'.jobs.keys = ∅ ∧ ¬ LeavesNothing {} s' := by
  have h : (addGuarded (some (.reserve, .badAlloc)) {} sampleEnvironment sampleRequest).map
      (fun x => (x.1, torrentsIn x.2.trace, x.2.jobs.keys)) =
        some ({ code := .allocationLimit }, {1}, ∅) := by
    decide +kernel
  obtain ⟨⟨response, s'⟩, hs', heq⟩ := Option.map_eq_some_iff.mp h
  simp only [Prod.mk.injEq] at heq
  obtain ⟨rfl, htorrents, hjobs⟩ := heq
  refine ⟨s', hs', htorrents, hjobs, fun hleft => ?_⟩
  have hnone : torrentsIn s'.trace = ∅ := hleft.torrents
  rw [htorrents] at hnone
  cases Finset.singleton_ne_empty _ hnone

end Session

end LibtorrentKit
