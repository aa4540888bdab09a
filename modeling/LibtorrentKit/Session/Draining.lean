/-
  Reading the mailbox of a session until it is empty.

  The answers of `ltkit_session_next_event` are in the trace (`readings`). While only these calls
  are made, by any number of threads and whether or not they get a buffer, the texts they hand out
  are the critical events in their order and then the statuses, and there is one for each event
  that goes (`reads_drain`). Nothing but an empty mailbox or a missing buffer keeps a read from
  getting an event; and once the mailbox is empty, it holds the torrents of the session and no
  others, so that only these count when a torrent is added.

  What is handed out is an event text of a torrent that was added (`texts_written`).
-/
import LibtorrentKit.Mailbox.Draining
import LibtorrentKit.Session.Alive
import LibtorrentKit.Session.EventTexts
import LibtorrentKit.Session.Results

namespace LibtorrentKit

open EventMailbox

/-! ## What has been read -/

/-- The answer of a call of `ltkit_session_next_event`. -/
def Entry.reading : Entry → Option Response
  | .returned _ (.nextEvent _) response => some response
  | _ => none

namespace Session

variable {s s' : Session}

/-- The answers of `ltkit_session_next_event` so far. -/
def readings (s : Session) : List Response := s.trace.filterMap Entry.reading

theorem readings_within (h : Within s s') : s'.readings = s.readings := by
  obtain ⟨new, htrace, hnew⟩ := h
  have hnone : new.filterMap Entry.reading = [] := by
    rw [List.filterMap_eq_nil_iff]
    intro e he
    have hcall := hnew e he
    cases e with
    | returned c api response => cases hcall
    | _ => rfl
  unfold readings
  rw [htrace, List.filterMap_append, hnone, List.append_nil]

theorem readings_record (s : Session) (e : Entry) :
    (s.record e).readings = s.readings ++ e.reading.toList := by
  unfold readings record
  rw [List.filterMap_append]
  cases h : e.reading with
  | none => rw [List.filterMap_cons_none h]; rfl
  | some x => rw [List.filterMap_cons_some h]; rfl

/-! ## One read -/

/-- The text of an event that has been handed out. -/
def eventText (response : Response) : Option String :=
  match response.code, response.output with
  | .ok, .text json => some json
  | _, _ => none

/-- The texts of the events that have been handed out so far. -/
def textsRead (s : Session) : List String := s.readings.filterMap eventText

theorem textsRead_within (h : Within s s') : s'.textsRead = s.textsRead := by
  rw [textsRead, readings_within h, textsRead]

theorem textsRead_record (s : Session) (e : Entry) :
    (s.record e).textsRead = s.textsRead ++ (e.reading.bind eventText).toList := by
  unfold textsRead
  rw [readings_record, List.filterMap_append]
  cases e.reading with
  | none => rfl
  | some response => cases h : eventText response <;> simp [h]

/-- A critical section of a read. -/
structure ReadOnly (s s' : Session) (text : Option String) : Prop where
  jobs : s'.jobs = s.jobs
  shuttingDown : s'.shuttingDown = s.shuttingDown
  took : Took s.events s'.events text

variable {env : Environment}

theorem popEvent_readOnly {json : String} (hfront : s.events.front env.mailboxOrder = some json)
    (h : s.popEvent env json = some s') : ReadOnly s s' (some json) := by
  obtain ⟨hjobs, hdown, -⟩ := popEvent_spec h
  refine ⟨hjobs, hdown, .event env.mailboxOrder json hfront ?_⟩
  unfold popEvent at h
  split at h
  · next events hpop =>
      obtain rfl := Option.some.inj h
      exact hpop
  · cases h

theorem resumeNextEvent_readOnly {res : Session × Response} (h : s.resumeNextEvent env = some res) :
    ReadOnly s res.1 (eventText res.2) := by
  unfold resumeNextEvent at h
  split at h
  · obtain rfl := Option.some.inj h
    exact ⟨rfl, rfl, .nothing rfl⟩
  · split at h
    · obtain rfl := Option.some.inj h
      exact ⟨rfl, rfl, .nothing rfl⟩
    · next json hfront =>
        split at h
        · obtain rfl := Option.some.inj h
          exact ⟨rfl, rfl, .nothing rfl⟩
        · obtain ⟨u, hu, rfl⟩ := Option.map_eq_some_iff.mp h
          exact popEvent_readOnly hfront hu

theorem nextEvent_readOnly {timeoutMs : Int} {res : Session × Option Response}
    (h : s.ltkitSessionNextEvent env timeoutMs = some res) :
    ReadOnly s res.1 (res.2.bind eventText) := by
  unfold ltkitSessionNextEvent at h
  split at h
  · obtain rfl := Option.some.inj h
    exact ⟨rfl, rfl, .nothing rfl⟩
  · split at h
    · obtain ⟨r, hr, rfl⟩ := Option.map_eq_some_iff.mp h
      exact resumeNextEvent_readOnly hr
    · obtain rfl := Option.some.inj h
      exact ⟨rfl, rfl, .nothing rfl⟩

/-- A read that gets a buffer takes an event, if there is one. -/
theorem nextEvent_takes {t : MailboxAudit} {timeoutMs : Int} (h : s.Audited t)
    (hrunning : s.shuttingDown = false) (hiterated : s.iteratedBy env = true)
    (hbuffer : env.malloc = true) (htimeout : 0 ≤ timeoutMs) (hunread : s.events.unread ≠ 0) :
    ∃ s' json, s.ltkitSessionNextEvent env timeoutMs =
      some (s', some { code := .ok, output := .text json }) := by
  have horder : ∀ id ∈ s.events.jobs_, id ∈ env.mailboxOrder := by
    intro id hid
    have hsub := of_decide_eq_true (Bool.and_eq_true_iff.mp hiterated).2
    exact List.mem_toFinset.mp (hsub (Finmap.mem_keys.mpr hid))
  have hsome := (front_isSome_iff h.bounded.wellFormed horder).mpr (Nat.pos_of_ne_zero hunread)
  obtain ⟨json, hfront⟩ := Option.isSome_iff_exists.mp hsome
  obtain ⟨s', _, hpop, -⟩ := popEvent_defined h hfront
  refine ⟨s', json, ?_⟩
  unfold ltkitSessionNextEvent resumeNextEvent
  rw [if_neg (not_lt.mpr htimeout), if_pos (by simp [nextEventWoken, hsome]), if_neg (by simp
    [hrunning]), hfront]
  dsimp only
  rw [if_neg (by simp [copyBuffer, hbuffer]), hpop]
  rfl

/-! ## An empty mailbox -/

/-- An empty mailbox holds the torrents of the session. -/
theorem Audited.drained {t : MailboxAudit} (h : s.Audited t) (hunread : s.events.unread = 0) :
    s.events.jobs_.keys = s.jobs.keys := by
  ext id
  rw [Finmap.mem_keys, Finmap.mem_keys, h.alive_iff]
  constructor
  · intro hid
    obtain ⟨job, hjob⟩ := Finmap.mem_iff.mp hid
    exact ⟨job, hjob, retired_of_drained h.bounded hunread hjob⟩
  · rintro ⟨job, hjob, -⟩
    exact Finmap.mem_of_lookup_eq_some hjob

theorem Audited.canAdd_iff {t : MailboxAudit} (h : s.Audited t) (hunread : s.events.unread = 0)
    (id : String) : s.events.canAdd id = true ↔ id ∉ s.jobs ∧ s.jobs.keys.card < maxJobs := by
  have hmem : id ∈ s.events.jobs_ ↔ id ∈ s.jobs := by
    rw [← Finmap.mem_keys, h.drained hunread, Finmap.mem_keys]
  simp [EventMailbox.canAdd, h.drained hunread, hmem, and_comm]

theorem Audited.orderly {t : MailboxAudit} (h : s.Audited t) : s.events.Orderly := by
  obtain ⟨ops, hops⟩ := h.run
  exact h.mailbox ▸ MailboxAudit.run_orderly hops

end Session

namespace World

open Session

variable {w v v' : World}

/-- The step is a critical section of a call of `ltkit_session_next_event`. -/
def Reads (w : World) : Step → Prop
  | .call _ _ api => ∃ timeoutMs, api = .nextEvent timeoutMs
  | .resume _ c => ∃ wait timeoutMs, w.calls c = some wait ∧ wait.api = .nextEvent timeoutMs
  | _ => False

theorem enter_textsRead {env : Environment} {c : CallId} {api : Api}
    {res : Session × Option Response}
    (h : (w.session.record (.called c api)).enter env api = some res) :
    res.1.textsRead = w.session.textsRead :=
  (textsRead_within (enter_fromCall h).within).trans
    ((textsRead_record _ _).trans (List.append_nil _))

theorem step_readOnly {l : Step} (hc : w.Callers) (hl : w.Reads l) (h : w.step l = some v) :
    ∃ text, ReadOnly w.session v.session text ∧
      v.session.textsRead = w.session.textsRead ++ text.toList := by
  cases l with
  | alert env alert => cases hl
  | destroy => cases hl
  | call env c api =>
      obtain ⟨timeoutMs, rfl⟩ := hl
      simp only [step, Option.ite_none_left_eq_some, Option.map_eq_some_iff] at h
      obtain ⟨-, ⟨s, answer⟩, henter, rfl⟩ := h
      have hread := nextEvent_readOnly henter
      have htexts : s.textsRead = w.session.textsRead := enter_textsRead henter
      refine ⟨answer.bind eventText, ?_⟩
      cases answer with
      | none => exact ⟨⟨hread.jobs, hread.shuttingDown, hread.took⟩,
          htexts.trans (List.append_nil _).symm⟩
      | some response =>
          refine ⟨⟨hread.jobs, hread.shuttingDown, hread.took⟩, ?_⟩
          exact (textsRead_record s _).trans (by rw [htexts]; rfl)
  | resume env c =>
      obtain ⟨wait, timeoutMs, hwait, hapi⟩ := hl
      obtain ⟨wait', res, hwait', hresume, rfl⟩ := step_resume h
      obtain rfl := Option.some.inj (hwait.symm.trans hwait')
      have htexts := textsRead_within (hc.resumed hwait hresume).fromCall.within
      rw [hapi] at hresume
      have hread := resumeNextEvent_readOnly hresume
      refine ⟨eventText res.2, ⟨hread.jobs, hread.shuttingDown, hread.took⟩, ?_⟩
      refine (textsRead_record res.1 _).trans ?_
      rw [htexts, hapi]
      rfl

/-- No other step hands out a text. -/
theorem step_textsRead {l : Step} (hc : w.Callers) (hl : ¬ w.Reads l) (h : w.step l = some v) :
    v.session.textsRead = w.session.textsRead := by
  have hreturned : ∀ (s : Session) c api response,
      (¬ ∃ timeoutMs, api = Api.nextEvent timeoutMs) →
        (s.record (.returned c api response)).textsRead = s.textsRead :=
    fun s c api response hapi => by
      rw [textsRead_record]
      cases api with
      | nextEvent timeoutMs => exact absurd ⟨timeoutMs, rfl⟩ hapi
      | _ => exact List.append_nil _
  cases l with
  | alert env alert =>
      simp only [step, Option.ite_none_left_eq_some, Option.map_eq_some_iff] at h
      obtain ⟨_, s, hh, rfl⟩ := h
      exact textsRead_within (handleAlert_within hh)
  | destroy =>
      obtain rfl := Option.some.inj h
      rfl
  | call env c api =>
      simp only [step, Option.ite_none_left_eq_some, Option.map_eq_some_iff] at h
      obtain ⟨-, ⟨s, answer⟩, henter, rfl⟩ := h
      have htexts : s.textsRead = w.session.textsRead := enter_textsRead henter
      cases answer with
      | none => exact htexts
      | some response => exact (hreturned s c api response hl).trans htexts
  | resume env c =>
      obtain ⟨wait, res, hwait, hresume, rfl⟩ := step_resume h
      have htexts := textsRead_within (hc.resumed hwait hresume).fromCall.within
      refine (hreturned res.1 c wait.api res.2 fun hapi => hl ?_).trans htexts
      obtain ⟨timeoutMs, hapi⟩ := hapi
      exact ⟨wait, timeoutMs, hwait, hapi⟩

/-- What is in the mailbox, and what has been handed out, are event texts of torrents that are
    `Own`. -/
structure Told (Good : TorrentStatus → Prop) (Own : String → Prop) (w : World) : Prop where
  written : w.session.Written Good Own
  read : ∀ json ∈ w.session.textsRead, ∃ id, Own id ∧ IsEventText Good id json

section Told

variable {Good : TorrentStatus → Prop} {Own : String → Prop}

theorem step_told {l : Step} (hc : w.Callers) (hreports : l.Reports Good)
    (hown : ∀ id, Entry.mail (.begin id) ∈ v.session.trace → Own id) (h : w.Told Good Own)
    (hstep : w.step l = some v) : v.Told Good Own := by
  refine ⟨step_written hc hreports hown h.written hstep, fun json hjson => ?_⟩
  by_cases hreads : w.Reads l
  · obtain ⟨text, hread, hgrown⟩ := step_readOnly hc hreads hstep
    rw [hgrown] at hjson
    rcases List.mem_append.mp hjson with hjson | hjson
    · exact h.read json hjson
    · cases hread.took with
      | nothing => cases hjson
      | event order text hfront hpop =>
          obtain rfl := List.mem_singleton.mp hjson
          exact h.written.mailbox.front hfront
  · rw [step_textsRead hc hreads hstep] at hjson
    exact h.read json hjson

theorem run_told {ls : List Step} (hrun : Lts.exec step {} ls = some w)
    (hreports : ∀ l ∈ ls, l.Reports Good)
    (hown : ∀ id, Entry.mail (.begin id) ∈ w.session.trace → Own id) : w.Told Good Own := by
  have hinit : Told Good Own {} := ⟨written_init, fun json h => by cases h⟩
  have hok : Lts.EachStep step (fun _ l => l.Reports Good) {} ls := fun pre l _ hp _ =>
    hreports l (hp.subset (List.mem_append_right _ (List.mem_singleton.mpr rfl)))
  -- the trace only grows: what is assumed of the last one holds of those before
  refine Lts.exec_reached (fun v => (∀ id, Entry.mail (.begin id) ∈ v.session.trace → Own id) →
    v.Told Good Own) (fun _ => hinit) (fun pre u l v hpre hu hl huv hv => ?_) ls w hok hrun hown
  have hc := (run_callers hpre).2
  exact step_told hc hl hv (hu fun id hid => hv id ((step_grows hc huv).trace.subset hid)) huv

/-- After every run, a text that has been handed out or comes next is an event text of a torrent
    that was added, and the status in it one that libtorrent has reported. -/
theorem texts_written {ls : List Step} (hrun : Lts.exec step {} ls = some w)
    (hreports : ∀ l ∈ ls, l.Reports Good) {json : String}
    (hread : json ∈ w.session.textsRead ∨ ∃ order, w.session.events.front order = some json) :
    ∃ id, Entry.mail (.begin id) ∈ w.session.trace ∧ IsEventText Good id json := by
  have htold := run_told hrun hreports fun _ => id
  rcases hread with hread | ⟨order, hfront⟩
  · exact htold.read json hread
  · exact htold.written.mailbox.front hfront

end Told

/-- What holds after reads that hand out `texts`. -/
structure Draining (w v : World) (texts : List String) : Prop where
  reached : ∃ ls, Lts.exec step {} ls = some v
  jobs : v.session.jobs = w.session.jobs
  shuttingDown : v.session.shuttingDown = w.session.shuttingDown
  textsRead : v.session.textsRead = w.session.textsRead ++ texts
  drained : Drained w.session.events texts v.session.events

theorem exec_draining {ls rs : List Step} (hrun : Lts.exec step {} ls = some w)
    (hreads : Lts.EachStep step Reads w rs) (hrs : Lts.exec step w rs = some v) :
    ∃ texts, Draining w v texts := by
  refine @Lts.exec_invariant _ _ step (fun v => ∃ texts, Draining w v texts) _ _ ?_ ?_ rs v
    hreads hrs
  · exact ⟨[], ⟨ls, hrun⟩, rfl, rfl, (List.append_nil _).symm, .refl _⟩
  · rintro u l u' ⟨texts, ⟨ls', hls'⟩, hjobs, hdown, htexts, hdrained⟩ hl hstep
    obtain ⟨t, ht⟩ := run_audited hls'
    obtain ⟨text, hread, hnew⟩ := step_readOnly (run_callers hls').2 hl hstep
    refine ⟨texts ++ text.toList, ⟨ls' ++ [l], Lts.exec_snoc_eq_some.mpr ⟨u, hls', hstep⟩⟩,
      hread.jobs.trans hjobs, hread.shuttingDown.trans hdown, ?_,
      hdrained.took ht.orderly hread.took⟩
    rw [hnew, htexts, List.append_assoc]

/-- **Reading empties the mailbox.** After every run, while calls of `ltkit_session_next_event` are
made, by any threads and with or without a buffer, and nothing else happens: they hand out the
critical events in their order and then the statuses, one text for each event that goes. As long as
one is left and the session runs, a call that gets a buffer is answered with it. In the end the
mailbox holds the torrents of the session, and a torrent is refused only if it is one of them or
there are too many of them. -/
theorem reads_drain {ls rs : List Step} (hrun : Lts.exec step {} ls = some w)
    (hreads : Lts.EachStep step Reads w rs) (hrs : Lts.exec step w rs = some v) :
    (∃ texts statuses : List String, v.session.textsRead = w.session.textsRead ++ texts ∧
      texts.length + v.session.events.unread = w.session.events.unread ∧
      ↑statuses = w.session.events.statuses ∧
      texts <+: w.session.events.occurrences.map Prod.snd ++ statuses) ∧
    (v.session.events.unread ≠ 0 → v.session.shuttingDown = false →
      ∀ env c timeoutMs, v.calls c = none → v.session.iteratedBy env = true →
        env.malloc = true → 0 ≤ timeoutMs →
        ∃ v' json, v.step (.call env c (.nextEvent timeoutMs)) = some v' ∧
          v'.session.textsRead = v.session.textsRead ++ [json]) ∧
    (v.session.events.unread = 0 → v.session.jobs = w.session.jobs ∧
      v.session.events.jobs_.keys = w.session.jobs.keys ∧
      ∀ id, v.session.events.canAdd id = true ↔
        id ∉ w.session.jobs ∧ w.session.jobs.keys.card < maxJobs) := by
  obtain ⟨texts, ⟨ls', hls'⟩, hjobs, -, htexts, hdrained⟩ := exec_draining hrun hreads hrs
  obtain ⟨t, ht⟩ := run_audited hls'
  refine ⟨?_, ?_, fun hunread => ?_⟩
  · obtain ⟨statuses, hstatuses, horder⟩ := hdrained.sorted
    exact ⟨texts, statuses, htexts, hdrained.unread, hstatuses, horder⟩
  · intro hunread hrunning env c timeoutMs hfree hiterated hbuffer htimeout
    have hcalled : (v.session.record (.called c (.nextEvent timeoutMs))).Audited t :=
      ht.same rfl fun _ => Iff.rfl
    obtain ⟨s', json, henter⟩ := nextEvent_takes hcalled hrunning hiterated hbuffer htimeout hunread
    have hstep : v.step (.call env c (.nextEvent timeoutMs)) =
        some (v.returned c (.nextEvent timeoutMs)
          (s', { code := .ok, output := .text json })) := by
      simp only [step, hfree, hiterated, Option.isSome_none, Bool.not_true, Bool.or_self,
        Bool.false_eq_true, if_false, enter, henter, Option.map_some]
    have hsame : s'.textsRead = v.session.textsRead :=
      @enter_textsRead v env c (.nextEvent timeoutMs) _ henter
    refine ⟨_, json, hstep, (textsRead_record s' _).trans ?_⟩
    rw [hsame]
    rfl
  · refine ⟨hjobs, ?_, fun id => ?_⟩
    · rw [ht.drained hunread, hjobs]
    · rw [ht.canAdd_iff hunread, hjobs]

/-- The event of the torrent that has been removed is read. -/
def lastRead : List Step := [.call sampleEnvironment 1 (.nextEvent 0)]

/-- Its identifier is free again. -/
theorem lastRead_drains : ∃ v texts, Lts.exec step (after removedRun) lastRead = some v ∧
    v.session.textsRead = (after removedRun).session.textsRead ++ texts ∧ texts.length = 1 ∧
    v.session.events.canAdd "a" = true := by
  have hrun : Lts.exec step {} removedRun = some (after removedRun) :=
    exec_after (by decide +kernel)
  have hcheck : (Lts.exec step (after removedRun) lastRead).any
      (fun v => decide (v.session.events.unread = 0)) = true := by decide +kernel
  obtain ⟨v, hv, hunread⟩ := (Option.any_eq_true _ _).mp hcheck
  have hbefore : (after removedRun).session.events.unread = 1 := by decide +kernel
  have hreads : Lts.EachStep step Reads (after removedRun) lastRead :=
    Lts.EachStep.nil.snoc fun _ _ => ⟨0, rfl⟩
  obtain ⟨⟨texts, -, htexts, hlength, -⟩, -, hempty⟩ := reads_drain hrun hreads hv
  have hend : v.session.events.unread = 0 := of_decide_eq_true hunread
  refine ⟨v, texts, hv, htexts, by omega, ((hempty hend).2.2 "a").mpr ⟨?_, ?_⟩⟩ <;> decide +kernel

end World

end LibtorrentKit
