/-
  Who is alive, in the session and in its mailbox.

  `Audited` ties the two maps together: the mailbox of the session is that of a run of mailbox
  uses, and the torrents whose tenure is current in that run are the jobs of the session. Every
  critical section keeps it (`run_audited`). So what holds of the mailbox by itself holds of it in
  every session, and whatever the session puts into the mailbox is for a torrent that is there.
-/
import LibtorrentKit.Mailbox.Capacity
import LibtorrentKit.Session.Adding
import LibtorrentKit.Session.Callers

namespace LibtorrentKit

open EventMailbox

namespace Session

/-! ## The two maps -/

/-- The run `t` of the mailbox ends in that of the session, and its current torrents are the jobs
of the session. -/
structure Audited (s : Session) (t : MailboxAudit) : Prop where
  run : ∃ ops, Lts.exec MailboxAudit.step {} ops = some t
  mailbox : t.trace.mailbox = s.events
  jobs : ∀ id, id ∈ s.jobs ↔ t.tenure id = .current

variable {s s' : Session} {t : MailboxAudit} {env : Environment} {id : String}

theorem audited_initial : Audited {} {} where
  run := ⟨[], rfl⟩
  mailbox := rfl
  jobs _ := iff_of_false Finmap.notMem_empty fun h => by cases h

/-- The session uses its mailbox. -/
theorem Audited.use (h : s.Audited t) (s' : Session) {op : MailboxOp} {u : MailboxTrace}
    (hstep : t.trace.step op = some u) (hmailbox : u.mailbox = s'.events)
    (hjobs : ∀ id, id ∈ s'.jobs ↔ (t.tenure id).after id op = .current) : ∃ t', s'.Audited t' := by
  obtain ⟨ops, hops⟩ := h.run
  obtain ⟨t', ht', rfl, htenure⟩ : ∃ t', t.step op = some t' ∧ t'.trace = u ∧
      t'.tenure = fun id => (t.tenure id).after id op :=
    ⟨_, by rw [MailboxAudit.step, hstep, Option.map_some], rfl, rfl⟩
  refine ⟨t', ⟨ops ++ [op], Lts.exec_snoc_eq_some.mpr ⟨t, hops, ht'⟩⟩, hmailbox, fun id => ?_⟩
  rw [htenure]
  exact hjobs id

/-- A use that admits and retires no torrent. -/
theorem Audited.pass (h : s.Audited t) {op : MailboxOp} {u : MailboxTrace}
    (hstep : t.trace.step op = some u) (hmailbox : u.mailbox = s'.events)
    (hop : ∀ id tenure, Tenure.after id op tenure = tenure) (hjobs : s'.jobs = s.jobs) :
    ∃ t', s'.Audited t' :=
  h.use s' hstep hmailbox fun id => by rw [hop, hjobs, h.jobs]

theorem Audited.same (h : s.Audited t) (hevents : s'.events = s.events)
    (hjobs : ∀ id, id ∈ s'.jobs ↔ id ∈ s.jobs) : s'.Audited t :=
  ⟨h.run, h.mailbox.trans hevents.symm, fun id => (hjobs id).trans (h.jobs id)⟩

theorem Audited.bounded (h : s.Audited t) : Bounded s.events t.kindOf t.tenure := by
  obtain ⟨ops, hops⟩ := h.run
  exact h.mailbox ▸ MailboxAudit.run_bounded hops

/-- The jobs of the session are the torrents of the mailbox that are not retired. -/
theorem Audited.alive_iff (h : s.Audited t) (id : String) :
    id ∈ s.jobs ↔ ∃ job, s.events.jobs_.lookup id = some job ∧ job.retired = false := by
  rw [h.jobs]
  constructor
  · intro hcurrent
    cases hlookup : s.events.jobs_.lookup id with
    | none => exact absurd hcurrent (h.bounded.left id hlookup)
    | some job =>
      refine ⟨job, rfl, ?_⟩
      have htenure := (h.bounded.jobs id job hlookup).tenure
      rw [hcurrent] at htenure
      by_contra hretired
      rw [if_pos (by simpa using hretired)] at htenure
      cases htenure
  · rintro ⟨job, hlookup, hretired⟩
    have htenure := (h.bounded.jobs id job hlookup).tenure
    rwa [hretired] at htenure

theorem Audited.present (h : s.Audited t) (hid : id ∈ s.jobs) : id ∈ s.events.jobs_ := by
  obtain ⟨job, hlookup, -⟩ := (h.alive_iff id).mp hid
  exact Finmap.mem_of_lookup_eq_some hlookup

/-- A torrent that has been removed is still there as long as its events are unread. -/
theorem Audited.absent_iff (h : s.Audited t) (hid : id ∉ s.jobs) :
    id ∉ s.events.jobs_ ↔ s.events.queued id = [] := by
  have hwf := h.bounded.wellFormed
  constructor
  · intro habsent
    rw [queued, hwf.entriesOf_eq_nil (Finmap.lookup_eq_none.mpr habsent), List.flatMap_nil]
  · intro hempty hpresent
    obtain ⟨job, hlookup⟩ := Finmap.mem_iff.mp hpresent
    have hretired : job.retired = true := by
      by_contra hnot
      exact hid ((h.alive_iff id).mpr ⟨job, hlookup, by simpa using hnot⟩)
    have hpending := ((h.bounded.jobs id job hlookup).quiet hretired).1
    rw [hwf.pending id job hlookup] at hpending
    obtain ⟨e, he⟩ := List.exists_mem_of_length_pos hpending
    have hcount := hwf.countPos e (mem_entriesOf.mp he).1
    have hmem : e.json ∈ s.events.queued id :=
      List.mem_flatMap.mpr ⟨e, he, List.mem_replicate.mpr ⟨hcount.ne', rfl⟩⟩
    rw [hempty] at hmem
    cases hmem

/-- What is put into the mailbox for a job is taken. -/
theorem Audited.finds (h : s.Audited t) (hid : id ∈ s.jobs) (alloc : Allocator) (kind : Kind)
    (json : String) : (∃ m, s.events.critical alloc id kind json = .ok m) ∧
      ∃ m, s.events.status id json = .ok m := by
  obtain ⟨job, hlookup⟩ := Finmap.mem_iff.mp (h.present hid)
  constructor
  · have hdefined := h.bounded.wellFormed.critical_defined alloc id kind json
    cases hc : s.events.critical alloc id kind json with
    | ok m => exact ⟨m, rfl⟩
    | error fault =>
      cases fault with
      | undefinedBehaviour => exact absurd hc hdefined
      | outOfRange => exact absurd hc (critical_of_lookup hlookup)
  · simp only [EventMailbox.status, hlookup]
    split <;> exact ⟨_, rfl⟩

/-! ## Actions -/

theorem perform_audited {a : Action} (h : s.Audited t) (hp : s.perform env id a = some s') :
    ∃ t', s'.Audited t' := by
  have hjobs := (perform_spec hp).1
  have hsame : s'.events = s.events → ∃ t', s'.Audited t' := fun hevents =>
    ⟨t, h.same hevents fun i => by rw [hjobs]⟩
  cases a with
  | command | began | accepted | completing =>
    cases hp
    exact hsame rfl
  | enqueue kind json =>
    simp only [perform, enqueue] at hp
    split at hp
    · next events hc =>
      cases hp
      have hstep : t.trace.step (.critical env.alloc id kind json) =
          some ⟨events, t.trace.log ++ [.submit id kind json]⟩ := by
        simp only [MailboxTrace.step, h.mailbox, hc]
      exact h.pass hstep rfl (fun _ _ => rfl) rfl
    · cases hp
  | status json =>
    simp only [perform, publishStatus] at hp
    split at hp
    · next events hc =>
      cases hp
      have hstep : t.trace.step (.status id json) = some { t.trace with mailbox := events } := by
        simp only [MailboxTrace.step, h.mailbox, hc]
      exact h.pass hstep rfl (fun _ _ => rfl) rfl
    · cases hp

/-- An action for a job cannot fail. -/
theorem perform_defined (env : Environment) (a : Action) (h : s.Audited t) (hid : id ∈ s.jobs) :
    ∃ s', s.perform env id a = some s' := by
  cases a with
  | command | began | accepted | completing => exact ⟨_, rfl⟩
  | enqueue kind json =>
    obtain ⟨m, hm⟩ := (h.finds hid env.alloc kind json).1
    exact Option.isSome_iff_exists.mp (by simp only [perform, enqueue, hm, Option.isSome_some])
  | status json =>
    obtain ⟨m, hm⟩ := (h.finds hid env.alloc .error json).2
    exact Option.isSome_iff_exists.mp
      (by simp only [perform, publishStatus, hm, Option.isSome_some])

theorem performAll_defined (env : Environment) (actions : List Action) (h : s.Audited t)
    (hid : id ∈ s.jobs) : ∃ s' t', s.performAll env id actions = some s' ∧ s'.Audited t' := by
  induction actions generalizing s t with
  | nil => exact ⟨s, t, rfl, h⟩
  | cons a actions ih =>
    obtain ⟨u, hu⟩ := perform_defined env a h hid
    obtain ⟨t₁, ht₁⟩ := perform_audited h hu
    have hid' : id ∈ u.jobs := by rwa [(perform_spec hu).1]
    obtain ⟨s', t', hs', ht'⟩ := ih ht₁ hid'
    exact ⟨s', t', by rw [performAll_cons, hu, Option.bind_some, hs'], ht'⟩

/-- A job is replaced. -/
theorem Audited.setJob (h : s.Audited t) (hid : id ∈ s.jobs) (value : Job) :
    (s.setJob id value).Audited t :=
  h.same rfl fun i => by
    rw [Session.setJob, Finmap.mem_insert]
    exact or_iff_right_of_imp fun hi => hi ▸ hid

theorem update_defined (env : Environment) (worked : Job × List Action) (h : s.Audited t)
    (hid : id ∈ s.jobs) : ∃ s' t', s.update env id worked = some s' ∧ s'.Audited t' :=
  performAll_defined env worked.2 (h.setJob hid worked.1) (Finmap.mem_insert.mpr (.inl rfl))

theorem popEvent_defined {json : String} (h : s.Audited t)
    (hfront : s.events.front env.mailboxOrder = some json) :
    ∃ s' t', s.popEvent env json = some s' ∧ s'.Audited t' := by
  obtain ⟨m, hm⟩ := h.bounded.wellFormed.pop_defined env.mailboxOrder
  obtain ⟨u, hu, hmailbox⟩ : ∃ u, t.trace.step (.nextEvent env.mailboxOrder true) = some u ∧
      u.mailbox = m := by
    simp only [MailboxTrace.step, h.mailbox, hfront, hm, if_true]
    exact ⟨_, rfl, rfl⟩
  simp only [popEvent, hm, Option.some.injEq, exists_and_left, exists_eq_left']
  exact h.pass hu hmailbox (fun _ _ => rfl) rfl

/-! ## Jobs that come and go -/

theorem insertJob_defined (env : Environment) (params : AddTorrentParams) (value : Job)
    (h : s.Audited t) (hcan : s.events.canAdd id = true) :
    ∃ s' t', s.insertJob env id params value = some s' ∧ s'.Audited t' := by
  have hstep : t.trace.step (.add id) = some ⟨s.events.add id, t.trace.log ++ [.begin id]⟩ := by
    simp only [MailboxTrace.step, h.mailbox, hcan, if_true]
  have hjobs : ∀ i, i ∈ s.jobs.insert id value ↔ (t.tenure i).after i (.add id) = .current := by
    intro i
    rw [Finmap.mem_insert, h.jobs i, Tenure.after]
    by_cases hi : id = i
    · simp [hi]
    · simp [hi, Ne.symm hi]
  obtain ⟨t₁, ht₁⟩ := h.use { s.record (.command (.addTorrent params value.handle)) with
    events := s.events.add id
    jobs := s.jobs.insert id value
    trace := (s.record (.command (.addTorrent params value.handle))).trace ++
      [.mail (.begin id)] } hstep rfl hjobs
  unfold insertJob
  dsimp only
  split
  · obtain ⟨s', hs'⟩ := perform_defined env (.enqueue .metadata (metadataReadyJson id)) ht₁
      (Finmap.mem_insert.mpr (.inl rfl))
    obtain ⟨t', ht'⟩ := perform_audited ht₁ hs'
    exact ⟨s', t', hs', ht'⟩
  · exact ⟨_, t₁, rfl, ht₁⟩

theorem remove_audited (h : s.Audited t) (id : String) (deleteFiles : Bool) :
    ∃ t', (s.ltkitSessionRemove id deleteFiles).1.Audited t' := by
  have hjobs : ∀ i, i ∈ s.jobs.erase id ↔ (t.tenure i).after i (.retire id) = .current := by
    intro i
    rw [Finmap.mem_erase, h.jobs i, Tenure.after]
    by_cases hi : id = i
    · subst hi
      by_cases hcurrent : t.tenure id = .current <;> simp [hcurrent]
    · simp [hi, Ne.symm hi]
  unfold ltkitSessionRemove
  split
  · exact ⟨t, h⟩
  · next value hvalue =>
    split
    · exact ⟨t, h.same rfl fun _ => Iff.rfl⟩
    · have hstep : t.trace.step (.retire id) =
          some { t.trace with mailbox := s.events.retire id } := by
        simp only [MailboxTrace.step, h.mailbox]
      cases value.stopped with
      | true => exact h.use _ hstep rfl hjobs
      | false => exact h.use _ hstep rfl hjobs

/-! ## Runs -/

theorem of_update_audited {worked : Job × List Action} (h : s.Audited t) (hid : id ∈ s.jobs)
    (hupdate : s.update env id worked = some s') : ∃ t', s'.Audited t' := by
  obtain ⟨u, t', hu, ht'⟩ := update_defined env worked h hid
  obtain rfl := Option.some.inj (hupdate.symm.trans hu)
  exact ⟨t', ht'⟩

theorem micro_audited (hm : World.Micro s s') (h : s.Audited t) : ∃ t', s'.Audited t' := by
  cases hm with
  | called | returned | destroy => exact ⟨t, h.same rfl fun _ => Iff.rfl⟩
  | alert env alert hrunning hh =>
    rcases handleAlert_cases hh with rfl | ⟨id, value, hvalue, -, -, hupdate⟩
    · exact ⟨t, h.same rfl fun _ => Iff.rfl⟩
    · have hrecord : (s.record (.alert (some id) alert)).Audited t := h.same rfl fun _ => Iff.rfl
      exact of_update_audited hrecord (Finmap.mem_of_lookup_eq_some hvalue) hupdate
  | life hl =>
    cases hl with
    | insert env r params desired handle hrunning hfree hcan hadd hinsert =>
      obtain ⟨u, t', hu, ht'⟩ := insertJob_defined env params _ h hcan
      obtain rfl := Option.some.inj (hinsert.symm.trans hu)
      exact ⟨t', ht'⟩
    | remove id value deleteFiles hvalue hactive => exact remove_audited h id deleteFiles
  | move hmove =>
    cases hmove with
    | error | wake => exact ⟨t, h.same rfl fun _ => Iff.rfl⟩
    | read env json hfront hpop =>
      obtain ⟨u, t', hu, ht'⟩ := popEvent_defined h hfront
      obtain rfl := Option.some.inj (hpop.symm.trans hu)
      exact ⟨t', ht'⟩
    | work env id hvalue hwork hupdate =>
      exact of_update_audited h (Finmap.mem_of_lookup_eq_some hvalue) hupdate

/-- In every run the mailbox of the session is one that its own uses lead to. -/
theorem run_audited {ls : List Step} {w : World} (hrun : Lts.exec World.step {} ls = some w) :
    ∃ t, w.session.Audited t :=
  World.run_invariant (fun _ => True) (fun s => ∃ t, s.Audited t) (fun _ h => h)
    ⟨{}, audited_initial⟩ (fun ⟨_, ht⟩ _ _ hm => micro_audited hm ht) hrun trivial

end Session

end LibtorrentKit
