/-
  The texts of events.

  Eight places of the native layer write the text of an event, each by hand. `EventForm` is what
  they write: a kind, and for some kinds a status or the reason of a failure.

  `Session.Written`: whatever is in the mailbox is such a text, of a torrent that was added and with
  a status that libtorrent reported. `World.step_written` keeps it; what the calls hand out is in
  `Session.Draining`.
-/
import LibtorrentKit.Mailbox.Freshness
import LibtorrentKit.Session.Mail

namespace LibtorrentKit

/-! ## The forms -/

/-- What an event says, but for the identifier of its torrent. -/
inductive EventForm where
  | metadataReady
  | statusChanged (status : TorrentStatus) (stopped : Bool)
  | completed (status : TorrentStatus)
  | stoppedAfterCompletion
  | invalidSelection
  | recoverableError
  | completionFailed (failure : CompletionFailure)
  deriving DecidableEq, Repr

/-- The text that the native layer writes. -/
def EventForm.text (id : String) : EventForm → String
  | .metadataReady => metadataReadyJson id
  | .statusChanged status stopped => statusChangedJson id status stopped
  | .completed status => completedJson id status
  | .stoppedAfterCompletion => stoppedAfterCompletionJson id
  | .invalidSelection => invalidSelectionJson id
  | .recoverableError => recoverableErrorJson id
  | .completionFailed failure => completionFailedJson id failure

/-- The status that the event reports. -/
def EventForm.status : EventForm → Option TorrentStatus
  | .statusChanged status _ => some status
  | .completed status => some status
  | _ => none

/-- A text that the native layer writes for `id`; the status in it is `Good`. -/
def IsEventText (Good : TorrentStatus → Prop) (id json : String) : Prop :=
  ∃ form : EventForm, (∀ status, form.status = some status → Good status) ∧ json = form.text id

theorem IsEventText.plain {Good : TorrentStatus → Prop} {id : String} (form : EventForm)
    (h : form.status = none) : IsEventText Good id (form.text id) :=
  ⟨form, fun status hs => (by rw [h] at hs; cases hs), rfl⟩

theorem IsEventText.reports {Good : TorrentStatus → Prop} {id : String} (form : EventForm)
    {status : TorrentStatus} (h : form.status = some status) (hgood : Good status) :
    IsEventText Good id (form.text id) :=
  ⟨form, fun _ hs => Option.some.inj (h.symm.trans hs) ▸ hgood, rfl⟩

/-! ## The mailbox -/

namespace EventMailbox

/-- Every text in the mailbox satisfies `P` with its torrent. -/
structure Holds (P : String → String → Prop) (m : EventMailbox) : Prop where
  critical : ∀ e ∈ m.critical_, P e.id e.json
  status : ∀ id json, m.pending id = some json → P id json

variable {P : String → String → Prop} {m m' : EventMailbox}

theorem Holds.empty : Holds P {} where
  critical e he := by cases he
  status id json h := by
    unfold pending at h
    rw [Finmap.lookup_empty] at h
    cases h

theorem Holds.add (h : m.Holds P) (id : String) : (m.add id).Holds P where
  critical := by
    unfold EventMailbox.add
    split
    · exact h.critical
    · exact h.critical
  status i json hp := h.status i json (pending_add hp)

theorem Holds.retire (h : m.Holds P) (id : String) : (m.retire id).Holds P where
  critical := by
    unfold EventMailbox.retire
    split
    · exact h.critical
    · split
      · exact h.critical
      · exact h.critical
  status i json hp := h.status i json (pending_retire hp)

theorem Holds.critical_ok {alloc : Allocator} {id json : String} {kind : Kind} (h : m.Holds P)
    (hjson : P id json) (hc : m.critical alloc id kind json = .ok m') : m'.Holds P where
  critical := by
    have hpush : ∀ job, ∀ e ∈ (pushCritical alloc m id kind json job).critical_, P e.id e.json := by
      intro job e he
      rcases List.mem_append.mp he with he | he
      · exact h.critical e he
      · rw [List.mem_singleton.mp he]
        exact hjson
    unfold EventMailbox.critical at hc
    split at hc
    · cases hc
    · split at hc
      · split at hc
        · split at hc
          · cases hc
          · obtain rfl := Except.ok.inj hc
            intro e he
            obtain ⟨x, hx, rfl⟩ := List.mem_map.mp he
            have hold := h.critical x hx
            unfold bump
            split
            · exact hold
            · exact hold
        · obtain rfl := Except.ok.inj hc
          exact hpush _
      · split at hc
        · obtain rfl := Except.ok.inj hc
          exact h.critical
        · obtain rfl := Except.ok.inj hc
          exact hpush _
  status i text hp := h.status i text (pending_critical hc hp).1

theorem Holds.status_ok {id json : String} (h : m.Holds P) (hjson : P id json)
    (hc : m.status id json = .ok m') : m'.Holds P := by
  unfold EventMailbox.status at hc
  split at hc
  · cases hc
  · split at hc
    · obtain rfl := Except.ok.inj hc
      exact h
    · obtain rfl := Except.ok.inj hc
      refine ⟨h.critical, fun i text hp => ?_⟩
      rw [pending_setJob] at hp
      split at hp
      · next hi =>
          obtain rfl := Option.some.inj hp
          exact hi ▸ hjson
      · exact h.status i text hp

theorem Holds.pop {order : List String} (h : m.Holds P) (hpop : m.pop order = .ok m') :
    m'.Holds P where
  critical := by
    unfold EventMailbox.pop at hpop
    split at hpop
    · next e rest hm =>
        have hrest : ∀ x ∈ rest, P x.id x.json := fun x hx => h.critical x (by simp [hm, hx])
        have hfirst : P e.id e.json := h.critical e (by simp [hm])
        split at hpop
        · cases hpop
        · split at hpop
          · cases hpop
          · split at hpop
            · cases hpop
            · obtain rfl := Except.ok.inj hpop
              exact hrest
        · obtain rfl := Except.ok.inj hpop
          exact List.forall_mem_cons.mpr ⟨hfirst, hrest⟩
    · have hnone : ∀ j, ∀ e ∈ ({ m with jobs_ := j } : EventMailbox).critical_, P e.id e.json :=
        fun j => h.critical
      split at hpop
      · obtain rfl := Except.ok.inj hpop
        exact h.critical
      · split at hpop
        · obtain rfl := Except.ok.inj hpop
          exact h.critical
        · obtain rfl := Except.ok.inj hpop
          exact hnone _
  status i json hp := h.status i json (pending_pop hpop hp)

/-- What `front` hands out is a text of the mailbox. -/
theorem Holds.front {order : List String} {json : String} (h : m.Holds P)
    (hfront : m.front order = some json) : ∃ id, P id json := by
  unfold EventMailbox.front at hfront
  split at hfront
  · next e rest hm =>
      obtain rfl := Option.some.inj hfront
      exact ⟨e.id, h.critical e (by simp [hm])⟩
  · obtain ⟨id, _, hpending⟩ := Option.bind_eq_some_iff.mp hfront
    exact ⟨id, h.status id json hpending⟩

end EventMailbox

/-! ## The actions -/

section Actions

variable {Good : TorrentStatus → Prop}

/-- What an action gives to the mailbox is an event text of `id`. -/
def Action.Writes (Good : TorrentStatus → Prop) (id : String) (a : Action) : Prop :=
  ∀ json, (a = .status json ∨ ∃ kind, a = .enqueue kind json) → IsEventText Good id json

theorem Silent.writes {a : Action} (h : Session.Silent a) (id : String) : a.Writes Good id := by
  rintro json (rfl | ⟨kind, rfl⟩)
  · exact absurd rfl (h.2 json)
  · exact absurd rfl (h.1 kind json)

theorem writes_command (id : String) (c : Command) : (Action.command c).Writes Good id :=
  Silent.writes ⟨by simp, by simp⟩ id

theorem writes_began (id : String) (handle : Handle) (flush completion : Bool) :
    (Action.began handle flush completion).Writes Good id :=
  Silent.writes ⟨by simp, by simp⟩ id

theorem writes_accepted (id : String) (alert : Alert) : (Action.accepted alert).Writes Good id :=
  Silent.writes ⟨by simp, by simp⟩ id

theorem writes_completing (id : String) (handle : Handle) (desired : List Int) :
    (Action.completing handle desired).Writes Good id :=
  Silent.writes ⟨by simp, by simp⟩ id

theorem writes_enqueue {id json : String} (kind : Kind) (h : IsEventText Good id json) :
    (Action.enqueue kind json).Writes Good id := by
  rintro text (heq | ⟨_, heq⟩)
  · cases heq
  · cases heq
    exact h

theorem Tuning.writes {actions : List Action} (h : Tuning actions) (id : String) :
    ∀ a ∈ actions, a.Writes Good id := by
  intro a ha
  obtain ⟨c, rfl, _⟩ := h a ha
  exact writes_command id c

theorem startWaitingCompletion_writes (value : Job) (id : String) :
    ∀ a ∈ (startWaitingCompletion value).2, a.Writes Good id := by
  rcases startWaitingCompletion_cases value with ⟨heq, _⟩ | ⟨_, _, _, heq⟩
  · rw [heq]
    intro a ha
    cases ha
  · rw [heq]
    simp only [List.forall_mem_cons]
    exact ⟨writes_began _ _ _ _, writes_command _ _, fun a ha => by cases ha⟩

theorem Session.Work.writes {slot closing : Prop} {env : Environment} {value : Job}
    {worked : Job × List Action} (h : Work slot closing env value worked) (id : String) :
    ∀ a ∈ worked.2, a.Writes Good id := by
  cases h with
  | select hselects htuning => exact htuning.writes id
  | reject =>
      simp only [List.forall_mem_cons]
      exact ⟨writes_command _ _, writes_command _ _, fun a ha => by cases ha⟩
  | begin hslot flush hstopped hactive hidle hcompletion =>
      rw [beginCheckpoint_eq]
      simp only [List.forall_mem_cons]
      exact ⟨writes_began _ _ _ _, writes_command _ _, fun a ha => by cases ha⟩
  | abandon hslot hactive =>
      unfold abandonCheckpoint
      split
      · exact startWaitingCompletion_writes _ id
      · intro a ha
        cases ha
  | finish hslot hactive hdone => exact startWaitingCompletion_writes _ id

theorem CompletionEnd.writes {env : Environment} {id : String} {value : Job} {success : Bool}
    {worked : Job × List Action} (henv : ∀ handle, Good (env.status handle))
    (h : CompletionEnd env id value success worked) :
    ∀ a ∈ worked.2, a.Writes Good id := by
  cases h with
  | recheck payloads metadata houtcome =>
      simp only [List.forall_mem_cons]
      exact ⟨writes_began _ _ _ _, writes_command _ _, fun a ha => by cases ha⟩
  | completed payloads metadata houtcome =>
      simp only [List.forall_mem_cons]
      exact ⟨writes_enqueue _ (.reports (.completed _) rfl (henv _)), writes_command _ _,
        writes_enqueue _ (.plain .stoppedAfterCompletion rfl), fun a ha => by cases ha⟩
  | failed failure payloads metadata houtcome =>
      simp only [List.forall_mem_cons]
      exact ⟨writes_enqueue _ (.plain (.completionFailed failure) rfl), writes_command _ _,
        fun a ha => by cases ha⟩

theorem FinishEnd.writes {env : Environment} {id : String} {value : Job} {success : Bool}
    {worked : Job × List Action} (henv : ∀ handle, Good (env.status handle))
    (h : FinishEnd env id value success worked) :
    ∀ a ∈ worked.2, a.Writes Good id := by
  cases h with
  | completion hcompletion hend => exact hend.writes henv
  | answered hcompletion hactive =>
      intro a ha
      cases ha
  | drained hcompletion hactive => exact startWaitingCompletion_writes _ id

/-- Every text that an alert gives to the mailbox is an event text of its torrent. -/
theorem onAlert_writes {env : Environment} (henv : ∀ handle, Good (env.status handle))
    (id : String) (value : Job) (alert : Alert) :
    ∀ a ∈ (onAlert env id value alert).2, a.Writes Good id := by
  by_cases hstate : alert.kind = .stateChanged
  · have heq : onAlert env id value alert = (value,
        [.status (statusChangedJson id (env.status value.handle) value.stopped)]) := by
      simp only [onAlert, hstate]
    rw [heq]
    simp only [List.forall_mem_cons]
    refine ⟨?_, fun a ha => by cases ha⟩
    rintro json (hj | ⟨_, hj⟩)
    · cases hj
      exact .reports (.statusChanged _ _) rfl (henv _)
    · cases hj
  · have hend := onAlert_end env id value alert
    revert hend
    generalize onAlert env id value alert = worked
    intro hend
    cases hend with
    | metadata hkind hselects htuning =>
        simp only [List.forall_mem_append, List.forall_mem_cons]
        exact ⟨htuning.writes id, writes_enqueue _ (.plain .metadataReady rfl),
          fun a ha => by cases ha⟩
    | rejected hkind hselects htuning =>
        simp only [List.forall_mem_append, List.forall_mem_cons]
        exact ⟨htuning.writes id, writes_command _ _, writes_command _ _,
          writes_enqueue _ (.plain .invalidSelection rfl), fun a ha => by cases ha⟩
    | completing hkind hcompletes hworked =>
        subst hworked
        simp only [List.forall_mem_cons]
        exact ⟨writes_command _ _, writes_completing _ _ _, startWaitingCompletion_writes _ id⟩
    | flushed request hkind hphase =>
        simp only [List.forall_mem_cons]
        exact ⟨writes_accepted _ _, writes_command _ _, fun a ha => by cases ha⟩
    | saved request data hkind hphase hend =>
        simp only [List.forall_mem_cons]
        exact ⟨writes_accepted _ _, hend.writes henv⟩
    | saveFailed request hkind hphase hend =>
        simp only [List.forall_mem_cons]
        exact ⟨writes_accepted _ _, hend.writes henv⟩
    | errorReported hkind hphase =>
        simp only [List.forall_mem_cons]
        exact ⟨writes_enqueue _ (.plain .recoverableError rfl), fun a ha => by cases ha⟩
    | status hkind json => exact absurd hkind hstate
    | errorNoted hkind hphase =>
        intro a ha
        cases ha
    | ignored herror hflushed hsaved hfailed =>
        intro a ha
        cases ha

end Actions

/-! ## Runs -/

section Runs

variable {Good : TorrentStatus → Prop} {Own : String → Prop}

namespace Session

/-- Every text in the mailbox is an event text of its torrent, with a status that is `Good`, and the
    torrents are `Own`. -/
structure Written (Good : TorrentStatus → Prop) (Own : String → Prop) (s : Session) : Prop where
  mailbox : s.events.Holds fun id json => Own id ∧ IsEventText Good id json
  jobs : ∀ id ∈ s.jobs, Own id

theorem written_init : Written Good Own {} where
  mailbox := .empty
  jobs _ h := absurd h Finmap.notMem_empty

variable {s s' : Session}

theorem Written.same (h : s.Written Good Own) (hevents : s'.events = s.events)
    (hjobs : s'.jobs = s.jobs) : s'.Written Good Own :=
  ⟨hevents ▸ h.mailbox, hjobs ▸ h.jobs⟩

theorem Written.record (h : s.Written Good Own) (e : Entry) : (s.record e).Written Good Own :=
  h.same rfl rfl

theorem perform_written {env : Environment} {id : String} {a : Action} (h : s.Written Good Own)
    (hid : Own id) (ha : a.Writes Good id) (hp : s.perform env id a = some s') :
    s'.Written Good Own := by
  cases a with
  | command c | began handle flush completion | accepted alert | completing handle desired =>
      obtain rfl := Option.some.inj hp
      exact h.record _
  | enqueue kind json =>
      simp only [perform, enqueue] at hp
      split at hp
      · next events hc =>
          obtain rfl := Option.some.inj hp
          exact ⟨.critical_ok h.mailbox ⟨hid, ha json (Or.inr ⟨kind, rfl⟩)⟩ hc, h.jobs⟩
      · cases hp
  | status json =>
      simp only [perform, publishStatus] at hp
      split at hp
      · next events hc =>
          obtain rfl := Option.some.inj hp
          exact ⟨.status_ok h.mailbox ⟨hid, ha json (Or.inl rfl)⟩ hc, h.jobs⟩
      · cases hp

theorem performAll_written {env : Environment} {id : String} {actions : List Action}
    (h : s.Written Good Own) (hid : Own id) (ha : ∀ a ∈ actions, a.Writes Good id)
    (hp : s.performAll env id actions = some s') : s'.Written Good Own := by
  unfold performAll at hp
  induction actions generalizing s with
  | nil =>
      obtain rfl := Option.some.inj hp
      exact h
  | cons a actions ih =>
      obtain ⟨hfirst, hrest⟩ := List.forall_mem_cons.mp ha
      rw [List.foldlM_cons, Option.bind_eq_bind, Option.bind_eq_some_iff] at hp
      obtain ⟨t, ht, hp⟩ := hp
      exact ih (perform_written h hid hfirst ht) hrest hp

/-- A job of the session is set, and does what it is to do. -/
theorem update_written {env : Environment} {id : String} {worked : Job × List Action}
    (h : s.Written Good Own) (hid : id ∈ s.jobs) (ha : ∀ a ∈ worked.2, a.Writes Good id)
    (hu : s.update env id worked = some s') : s'.Written Good Own := by
  have hset : (s.setJob id worked.1).Written Good Own := by
    refine ⟨h.mailbox, fun i hi => ?_⟩
    rcases Finmap.mem_insert.mp hi with rfl | hi
    · exact h.jobs i hid
    · exact h.jobs i hi
  exact performAll_written hset (h.jobs id hid) ha hu

theorem Move.written {slot : String → Prop} (hm : Move slot s s') (h : s.Written Good Own) :
    s'.Written Good Own := by
  cases hm with
  | error e => exact h.same rfl rfl
  | wake => exact h.same rfl rfl
  | read env json hfront hpop =>
      unfold popEvent at hpop
      split at hpop
      · next events hp =>
          obtain rfl := Option.some.inj hpop
          exact ⟨.pop h.mailbox hp, h.jobs⟩
      · cases hpop
  | work env id hvalue hwork hupdate =>
      exact update_written h (Finmap.mem_of_lookup_eq_some hvalue) (hwork.writes id) hupdate

theorem Moves.written {slot : String → Prop} (hm : Moves slot s s') (h : s.Written Good Own) :
    s'.Written Good Own := by
  induction hm with
  | refl => exact h
  | tail _ hmove ih => exact hmove.written ih

/-- A torrent that is entered is `Own`. -/
theorem Life.written (hl : Life s s') (hown : ∀ id, Entry.mail (.begin id) ∈ s'.trace → Own id)
    (h : s.Written Good Own) : s'.Written Good Own := by
  cases hl with
  | insert env r params desired handle hrunning hfree hcan hadd hinsert =>
      obtain ⟨_, _, _, _, rest, htrace, _⟩ := insertJob_spec hinsert
      have hid : Own r.identifier := hown _ (by rw [htrace]; simp)
      have hroom : (s.entered r.identifier params (newJob env r params desired handle)).Written
          Good Own := by
        refine ⟨EventMailbox.Holds.add h.mailbox _, fun i hi => ?_⟩
        rcases Finmap.mem_insert.mp hi with rfl | hi
        · exact hid
        · exact h.jobs i hi
      rcases insertJob_cases hinsert with rfl | hperform
      · exact hroom
      · exact perform_written hroom hid (writes_enqueue _ (.plain .metadataReady rfl)) hperform
  | remove id value deleteFiles hvalue hactive =>
      have hjobs : ∀ i ∈ s.jobs.erase id, Own i := fun i hi => h.jobs i (Finmap.mem_erase.mp hi).2
      simp only [ltkitSessionRemove, hvalue, hactive, Bool.false_eq_true, if_false]
      split
      · exact ⟨EventMailbox.Holds.retire h.mailbox id, hjobs⟩
      · exact ⟨EventMailbox.Holds.retire h.mailbox id, hjobs⟩

theorem handleAlert_written {env : Environment} (henv : ∀ handle, Good (env.status handle))
    {alert : Alert} (hh : s.handleAlert env alert = some s') (h : s.Written Good Own) :
    s'.Written Good Own := by
  rcases handleAlert_cases hh with rfl | ⟨id, value, hvalue, _, _, hupdate⟩
  · exact h.record _
  · have hid : id ∈ s.jobs := Finmap.mem_of_lookup_eq_some hvalue
    exact update_written (h.record _) hid (onAlert_writes henv id value alert) hupdate

end Session

/-- What libtorrent reports in this step is `Good`. Only an alert makes the session tell it. -/
def Step.Reports (Good : TorrentStatus → Prop) : Step → Prop
  | .alert env _ => ∀ handle, Good (env.status handle)
  | _ => True

namespace World

open Session

theorem step_written {w w' : World} {l : Step} (hc : w.Callers) (hreports : l.Reports Good)
    (hown : ∀ id, Entry.mail (.begin id) ∈ w'.session.trace → Own id)
    (h : w.session.Written Good Own) (hstep : w.step l = some w') :
    w'.session.Written Good Own := by
  cases l with
  | alert env alert =>
      simp only [step, Option.ite_none_left_eq_some, Option.map_eq_some_iff] at hstep
      obtain ⟨_, s, hh, rfl⟩ := hstep
      exact handleAlert_written hreports hh h
  | destroy =>
      obtain rfl := Option.some.inj hstep
      exact h.same rfl rfl
  | call env c api =>
      simp only [step, Option.ite_none_left_eq_some, Option.map_eq_some_iff] at hstep
      obtain ⟨_, res, henter, rfl⟩ := hstep
      have hgrown : ∀ id, Entry.mail (.begin id) ∈ res.1.trace → Own id := fun id hid => by
        refine hown id ?_
        cases hr : res.2 with
        | some response => exact List.mem_append_left _ hid
        | none => exact hid
      have hdone : res.1.Written Good Own := by
        rcases enter_moves (fun _ => True) (fun _ _ => trivial) henter with hm | hl
        · exact Moves.written hm (h.record _)
        · exact hl.written hgrown (h.record _)
      cases hr : res.2 with
      | some response => exact hdone.record _
      | none => exact hdone
  | resume env c =>
      obtain ⟨wait, res, hwait, hresume, rfl⟩ := step_resume hstep
      exact (Moves.written (hc.resumed hwait hresume) h).record _

end World

end Runs

end LibtorrentKit
