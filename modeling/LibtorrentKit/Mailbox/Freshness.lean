/-
  The status snapshots of the event mailbox.

  A status bypasses the queue of critical events, and only `critical` takes it back. An error
  that is merged into an unread run leaves the function before that, so a status recorded before
  the merged occurrence is handed out after it.

  `MailboxLedger` is a run of the mailbox with the record of what it accepted, `overtakes` the
  merge over a pending status. Without one, the pending snapshots are the newest of their
  torrents (`pending_newest_iff`).
-/
import LibtorrentKit.Mailbox.Delivery
import LibtorrentKit.Lib.History

namespace LibtorrentKit

open Finmap (lookup_insert lookup_insert_of_ne lookup_erase lookup_erase_ne)

/-- What the mailbox accepted: a status snapshot, or a critical event that was not dropped as
    the repeat of a one-shot. -/
inductive Notice where
  | snapshot (id json : String)
  | critical (id : String)
  deriving DecidableEq

def Notice.torrent : Notice → String
  | .snapshot id _ => id
  | .critical id => id

/-- The snapshot `json` is the last thing accepted for `id`: no later snapshot, and no critical
    event since it was recorded. -/
def Newest (log : List Notice) (id json : String) : Prop :=
  ∃ t, History.At log t (.snapshot id json) ∧
    History.NoneAfter (fun notice => notice.torrent = id) log t

namespace EventMailbox

/-- The status of `id` that waits to be read. -/
def pending (m : EventMailbox) (id : String) : Option String :=
  (m.jobs_.lookup id).bind Job.status

/-- What the mailbox accepts of one use, by the guards of `critical` and `status`. -/
def accepts (m : EventMailbox) : MailboxOp → List Notice
  | .critical _ id kind _ =>
      match m.jobs_.lookup id with
      | none => []
      | some job =>
          if kind ≠ .error ∧ kind ∈ job.deliveredOrPending then [] else [.critical id]
  | .status id json =>
      match m.jobs_.lookup id with
      | none => []
      | some job =>
          if job.retired ∨ Kind.completed ∈ job.deliveredOrPending
              ∨ Kind.invalidSelection ∈ job.deliveredOrPending then []
          else [.snapshot id json]
  | _ => []

/-- An error of `id` is merged into an unread run while a status of `id` is pending. -/
def overtakes (m : EventMailbox) : MailboxOp → Bool
  | .critical _ id kind _ =>
      decide (kind = .error) && ((m.jobs_.lookup id).bind Job.lastError).isSome &&
        (m.pending id).isSome
  | _ => false

/-- `front` hands out the status `json` of `id`. -/
def HandsOut (m : EventMailbox) (order : List String) (id json : String) : Prop :=
  m.critical_ = [] ∧ m.statusHolder order = some id ∧ m.front order = some json

theorem HandsOut.pending {m : EventMailbox} {order : List String} {id json : String}
    (h : m.HandsOut order id json) : m.pending id = some json := by
  obtain ⟨hcritical, hholder, hfront⟩ := h
  unfold front at hfront
  rw [hcritical, hholder] at hfront
  exact hfront

theorem pending_setJob (critical : List Entry) (m : EventMailbox) (id i : String) (job : Job) :
    pending { critical_ := critical, jobs_ := m.jobs_.insert id job } i =
      if i = id then job.status else m.pending i := by
  unfold pending
  split
  · next hi =>
      subst hi
      rw [lookup_insert, Option.bind_some]
  · next hi => rw [lookup_insert_of_ne _ hi]

theorem pending_eraseJob (critical : List Entry) (m : EventMailbox) (id i : String) :
    pending { critical_ := critical, jobs_ := m.jobs_.erase id } i =
      if i = id then none else m.pending i := by
  unfold pending
  split
  · next hi =>
      subst hi
      rw [lookup_erase, Option.bind_none]
  · next hi => rw [lookup_erase_ne hi]

variable {m m' : EventMailbox} {id i json : String}

theorem pending_add (h : (m.add id).pending i = some json) : m.pending i = some json := by
  unfold add at h
  split at h
  · exact h
  · rw [pending_setJob] at h
    split at h
    · cases h
    · exact h

theorem pending_retire (h : (m.retire id).pending i = some json) : m.pending i = some json := by
  unfold retire at h
  split at h
  · exact h
  · split at h
    · rw [pending_eraseJob] at h
      split at h
      · cases h
      · exact h
    · rw [pending_setJob] at h
      split at h
      · cases h
      · exact h

/-- `pop` takes a snapshot or a critical event, and leaves the other snapshots. -/
theorem pending_pop {order : List String} (hpop : m.pop order = .ok m')
    (h : m'.pending i = some json) : m.pending i = some json := by
  unfold pop at hpop
  split at hpop
  · next e rest _ =>
      split at hpop
      · cases hpop
      · split at hpop
        · cases hpop
        · next job hjob =>
            split at hpop
            · cases hpop
            · obtain rfl := Except.ok.inj hpop
              unfold popLast at h
              dsimp only at h
              split at h
              · rw [pending_eraseJob] at h
                split at h
                · cases h
                · exact h
              · rw [pending_setJob] at h
                split at h
                · next hi =>
                    show (m.jobs_.lookup i).bind Job.status = some json
                    rw [hi, hjob]
                    exact h
                · exact h
      · obtain rfl := Except.ok.inj hpop
        exact h
  · split at hpop
    · obtain rfl := Except.ok.inj hpop
      exact h
    · split at hpop
      · obtain rfl := Except.ok.inj hpop
        exact h
      · obtain rfl := Except.ok.inj hpop
        rw [pending_setJob] at h
        split at h
        · cases h
        · exact h

/-- A critical event of a torrent leaves no snapshot of it, but for an error that is merged. -/
theorem pending_critical {alloc : Allocator} {kind : Kind} {payload : String}
    (hcritical : m.critical alloc id kind payload = .ok m') (h : m'.pending i = some json) :
    m.pending i = some json ∧
      (i = id → m.overtakes (.critical alloc id kind payload) = true ∨
        m.accepts (.critical alloc id kind payload) = []) := by
  unfold critical at hcritical
  split at hcritical
  · cases hcritical
  · next job hjob =>
      have hpush : ∀ job₀ : Job, (pushCritical alloc m id kind payload job₀).pending i =
          some json → m.pending i = some json ∧ i ≠ id := by
        intro job₀ hp
        unfold pushCritical at hp
        rw [pending_setJob] at hp
        split at hp
        · cases hp
        · next hi => exact ⟨hp, hi⟩
      split at hcritical
      · next hkind =>
          split at hcritical
          · next p hp =>
              split at hcritical
              · cases hcritical
              · obtain rfl := Except.ok.inj hcritical
                refine ⟨h, fun hi => Or.inl ?_⟩
                subst hi
                have hpending : m.pending i = some json := h
                simp [overtakes, hkind, hjob, hp, hpending]
          · obtain rfl := Except.ok.inj hcritical
            have hne := hpush job h
            exact ⟨hne.1, fun hi => absurd hi hne.2⟩
      · next hkind =>
          split at hcritical
          · next hrepeat =>
              obtain rfl := Except.ok.inj hcritical
              refine ⟨h, fun _ => Or.inr ?_⟩
              simp only [accepts, hjob, if_pos (And.intro hkind hrepeat)]
          · obtain rfl := Except.ok.inj hcritical
            have hne := hpush _ h
            exact ⟨hne.1, fun hi => absurd hi hne.2⟩

theorem pending_status {payload : String} (hstatus : m.status id payload = .ok m')
    (h : m'.pending i = some json) :
    m.accepts (.status id payload) = [.snapshot i json] ∨
      (m.pending i = some json ∧ (i = id → m.accepts (.status id payload) = [])) := by
  unfold status at hstatus
  split at hstatus
  · cases hstatus
  · next job hjob =>
      split at hstatus
      · next hclosed =>
          obtain rfl := Except.ok.inj hstatus
          refine Or.inr ⟨h, fun _ => ?_⟩
          simp only [accepts, hjob, if_pos hclosed]
      · next hopen =>
          obtain rfl := Except.ok.inj hstatus
          rw [pending_setJob] at h
          split at h
          · next hi =>
              obtain rfl := Option.some.inj h
              left
              simp only [accepts, hjob, if_neg hopen, hi]
          · next hi => exact Or.inr ⟨h, fun heq => absurd heq hi⟩

theorem accepts_torrent {op : MailboxOp} {notice : Notice} (h : notice ∈ m.accepts op) :
    (∃ alloc kind json, op = .critical alloc notice.torrent kind json) ∨
      ∃ json, op = .status notice.torrent json := by
  cases op with
  | critical alloc id kind json =>
      simp only [accepts] at h
      split at h
      · cases h
      · split at h
        · cases h
        · obtain rfl := List.mem_singleton.mp h
          exact Or.inl ⟨alloc, kind, json, rfl⟩
  | status id json =>
      simp only [accepts] at h
      split at h
      · cases h
      · split at h
        · cases h
        · obtain rfl := List.mem_singleton.mp h
          exact Or.inr ⟨json, rfl⟩
  | add _ => cases h
  | retire _ => cases h
  | nextEvent _ _ => cases h

end EventMailbox

/-- A run of the mailbox and the record of what it accepted. -/
structure MailboxLedger where
  trace : MailboxTrace := {}
  log : List Notice := []

namespace MailboxLedger

open EventMailbox

def step (l : MailboxLedger) (op : MailboxOp) : Option MailboxLedger :=
  (l.trace.step op).map fun t => ⟨t, l.log ++ l.trace.mailbox.accepts op⟩

/-- Every pending snapshot is the newest of its torrent. -/
def PendingNewest (l : MailboxLedger) : Prop :=
  ∀ id json, l.trace.mailbox.pending id = some json → Newest l.log id json

/-- Every snapshot that `front` hands out, in whatever order it finds the torrents, is the
    newest of its torrent. -/
def HandsOutNewest (l : MailboxLedger) : Prop :=
  ∀ order id json, l.trace.mailbox.HandsOut order id json → Newest l.log id json

variable {l l' : MailboxLedger} {op : MailboxOp} {id json : String}

/-- A snapshot that is pending after a step was accepted by it, or was pending before it; then
    nothing of its torrent was accepted, unless an error was merged over it. -/
theorem step_pending {t t' : MailboxTrace} (h : t.step op = some t')
    (hp : t'.mailbox.pending id = some json) :
    t.mailbox.accepts op = [.snapshot id json] ∨ (t.mailbox.pending id = some json ∧
      (t.mailbox.overtakes op = true ∨
        ∀ notice ∈ t.mailbox.accepts op, notice.torrent ≠ id)) := by
  have hnone : t.mailbox.accepts op = [] →
      ∀ notice ∈ t.mailbox.accepts op, notice.torrent ≠ id := by
    intro hempty notice hmem
    rw [hempty] at hmem
    cases hmem
  cases op with
  | add i =>
      simp only [MailboxTrace.step, Option.ite_none_right_eq_some, Option.some.injEq] at h
      obtain ⟨_, rfl⟩ := h
      exact Or.inr ⟨pending_add hp, Or.inr (hnone rfl)⟩
  | retire i =>
      obtain rfl := Option.some.inj h
      exact Or.inr ⟨pending_retire hp, Or.inr (hnone rfl)⟩
  | critical alloc i kind payload =>
      simp only [MailboxTrace.step] at h
      split at h
      · next m hm =>
          obtain rfl := Option.some.inj h
          obtain ⟨hpending, hsame⟩ := pending_critical hm hp
          refine Or.inr ⟨hpending, ?_⟩
          by_cases hi : id = i
          · exact (hsame hi).imp_right hnone
          · refine Or.inr fun notice hmem htorrent => hi ?_
            rcases accepts_torrent hmem with ⟨_, _, _, hop⟩ | ⟨_, hop⟩
            · rw [← htorrent]
              exact (MailboxOp.critical.inj hop).2.1.symm
            · cases hop
      · next hm =>
          obtain rfl := Option.some.inj h
          refine Or.inr ⟨hp, Or.inr (hnone ?_)⟩
          unfold critical at hm
          split at hm
          · next hjob => simp only [accepts, hjob]
          · split at hm
            · split at hm
              · split at hm <;> cases hm
              · cases hm
            · split at hm <;> cases hm
      · cases h
  | status i payload =>
      simp only [MailboxTrace.step] at h
      split at h
      · next m hm =>
          obtain rfl := Option.some.inj h
          refine (pending_status hm hp).imp_right fun hsame => ⟨hsame.1, Or.inr ?_⟩
          by_cases hi : id = i
          · exact hnone (hsame.2 hi)
          · intro notice hmem htorrent
            rcases accepts_torrent hmem with ⟨_, _, _, hop⟩ | ⟨_, hop⟩
            · cases hop
            · apply hi
              rw [← htorrent]
              exact (MailboxOp.status.inj hop).1.symm
      · next hm =>
          obtain rfl := Option.some.inj h
          refine Or.inr ⟨hp, Or.inr (hnone ?_)⟩
          unfold status at hm
          split at hm
          · next hjob => simp only [accepts, hjob]
          · split at hm <;> cases hm
      · cases h
  | nextEvent order copied =>
      simp only [MailboxTrace.step] at h
      split at h
      · obtain rfl := Option.some.inj h
        exact Or.inr ⟨hp, Or.inr (hnone rfl)⟩
      · split at h
        · split at h
          · next m hm =>
              obtain rfl := Option.some.inj h
              exact Or.inr ⟨pending_pop hm hp, Or.inr (hnone rfl)⟩
          · cases h
        · obtain rfl := Option.some.inj h
          exact Or.inr ⟨hp, Or.inr (hnone rfl)⟩

theorem PendingNewest.empty : PendingNewest {} := by
  intro id json h
  simp [EventMailbox.pending] at h

theorem PendingNewest.step (hl : l.PendingNewest) (hkept : l.trace.mailbox.overtakes op = false)
    (h : l.step op = some l') : l'.PendingNewest := by
  obtain ⟨t, ht, rfl⟩ := Option.map_eq_some_iff.mp h
  intro id json hp
  rcases step_pending ht hp with haccepted | ⟨hpending, hover | hothers⟩
  · show Newest (l.log ++ l.trace.mailbox.accepts op) id json
    rw [haccepted]
    refine ⟨l.log.length, History.at_concat, History.noneAfter_of_length_le ?_⟩
    simp
  · rw [hkept] at hover
    cases hover
  · obtain ⟨at_, hat, hquiet⟩ := hl id json hpending
    exact ⟨at_, hat.append _, hquiet.append hothers⟩

/-- An error merged over a pending status leaves the status behind it. -/
theorem overtaken (hover : l.trace.mailbox.overtakes op = true) (h : l.step op = some l') :
    ¬ l'.PendingNewest := by
  obtain ⟨t, ht, rfl⟩ := Option.map_eq_some_iff.mp h
  cases op with
  | critical alloc id kind payload =>
      simp only [overtakes, Bool.and_eq_true, decide_eq_true_eq] at hover
      obtain ⟨⟨rfl, hrun⟩, hstatus⟩ := hover
      obtain ⟨json, hjson⟩ := Option.isSome_iff_exists.mp hstatus
      obtain ⟨p, hp⟩ := Option.isSome_iff_exists.mp hrun
      obtain ⟨job, hjob, hlast⟩ := Option.bind_eq_some_iff.mp hp
      have haccepts : l.trace.mailbox.accepts (.critical alloc id .error payload) =
          [.critical id] := by
        simp [accepts, hjob]
      -- the merge keeps the table of torrents, and with it the status
      have hkept : t.mailbox.pending id = some json := by
        simp only [MailboxTrace.step, EventMailbox.critical, hjob, hlast, if_true] at ht
        split at ht
        · next m hm =>
            split at hm
            · cases hm
            · obtain rfl := Except.ok.inj hm
              obtain rfl := Option.some.inj ht
              exact hjson
        · obtain rfl := Option.some.inj ht
          exact hjson
        · cases ht
      intro hnewest
      obtain ⟨at_, hat, hquiet⟩ := hnewest id json hkept
      simp only [haccepts] at hat hquiet
      rcases History.at_append.mp hat with hold | ⟨hle, hnew⟩
      · exact hquiet l.log.length _ hold.lt History.at_concat rfl
      · have heq := List.mem_singleton.mp hnew.mem
        cases heq
  | add _ => cases hover
  | retire _ => cases hover
  | status _ _ => cases hover
  | nextEvent _ _ => cases hover

/-- In every run, and for every torrent: the pending snapshots are the newest of their torrents
    in every state exactly when no error is merged into an unread run over a pending status. -/
theorem pending_newest_iff {ops : List MailboxOp} (h : Lts.exec step {} ops = some l) :
    Lts.EachState step PendingNewest {} ops ↔
      Lts.EachStep step (fun l op => l.trace.mailbox.overtakes op = false) {} ops := by
  have henv : Lts.EachStep step (fun _ _ => True) ({} : MailboxLedger) ops :=
    fun _ _ _ _ _ => trivial
  refine Lts.eachState_iff_eachStep PendingNewest.empty (fun _ hl => hl) ?_ ?_ h henv
  · intro l op l' hl _ hkept hstep
    exact hl.step hkept hstep
  · intro l op l' _ _ hover hstep
    exact overtaken (Bool.not_eq_false _ ▸ hover) hstep

/-- **A delivered status is never older than a delivered critical event**, in every run in
    which no error is merged into an unread run over a pending status: each snapshot that
    `front` hands out is the last one accepted for its torrent, recorded after every critical
    event of it. -/
theorem handsOut_newest {ops : List MailboxOp} (h : Lts.exec step {} ops = some l)
    (hkept : Lts.EachStep step (fun l op => l.trace.mailbox.overtakes op = false) {} ops) :
    Lts.EachState step HandsOutNewest {} ops := by
  intro pre u hpre hu order id json hout
  exact (pending_newest_iff h).mpr hkept pre u hpre hu id json hout.pending

/-- A status read after the first of two errors, before the second. -/
def orderedRun : List MailboxOp :=
  [.add "a", .critical bumpAllocator "a" .error "e", .nextEvent ["a"] true,
    .status "a" "s", .critical bumpAllocator "a" .error "e", .status "a" "s'",
    .nextEvent ["a"] true]

theorem orderedRun_newest : ∃ l, Lts.exec step {} orderedRun = some l ∧
    l.trace.mailbox.HandsOut ["a"] "a" "s'" ∧
    Lts.EachState step HandsOutNewest {} orderedRun := by
  have hout : (Lts.exec step {} orderedRun).map (fun l =>
      decide (l.trace.mailbox.critical_ = []) &&
        decide (l.trace.mailbox.statusHolder ["a"] = some "a") &&
        decide (l.trace.mailbox.front ["a"] = some "s'")) = some true := by
    decide +kernel
  obtain ⟨l, hl, hread⟩ := Option.map_eq_some_iff.mp hout
  simp only [Bool.and_eq_true, decide_eq_true_eq] at hread
  refine ⟨l, hl, ⟨hread.1.1, hread.1.2, hread.2⟩, handsOut_newest hl ?_⟩
  have hcheck : Lts.checkEachStep step (fun l op => !l.trace.mailbox.overtakes op) {}
      orderedRun = true := by
    decide +kernel
  exact (Lts.eachStep_of_check hcheck).mono fun l op hop => by simpa using hop

/-- A status between two occurrences of one error, all read in the end. -/
def mergedRun : List MailboxOp :=
  [.add "a", .critical bumpAllocator "a" .error "e", .status "a" "s",
    .critical bumpAllocator "a" .error "e", .nextEvent ["a"] true, .nextEvent ["a"] true]

/-- The status is handed out after both occurrences, and is older than the second. -/
theorem mergedRun_stale : ∃ l, Lts.exec step {} mergedRun = some l ∧
    l.trace.mailbox.HandsOut ["a"] "a" "s" ∧ ¬ Newest l.log "a" "s" := by
  have hout : (Lts.exec step {} mergedRun).map (fun l =>
      (decide (l.trace.mailbox.critical_ = []) &&
        decide (l.trace.mailbox.statusHolder ["a"] = some "a") &&
        decide (l.trace.mailbox.front ["a"] = some "s"), l.log)) =
      some (true, [.critical "a", .snapshot "a" "s", .critical "a"]) := by
    decide +kernel
  obtain ⟨l, hl, hread⟩ := Option.map_eq_some_iff.mp hout
  obtain ⟨hfront, hlog⟩ := Prod.ext_iff.mp hread
  simp only [Bool.and_eq_true, decide_eq_true_eq] at hfront
  refine ⟨l, hl, ⟨hfront.1.1, hfront.1.2, hfront.2⟩, ?_⟩
  rintro ⟨t, hat, hquiet⟩
  simp only at hlog
  rw [hlog] at hat hquiet
  have hlt : t < 2 := by
    by_contra hge
    have hlast : t = 2 := by
      have := hat.lt
      simp at this
      omega
    subst hlast
    cases Option.some.inj hat
  exact hquiet 2 (.critical "a") hlt rfl rfl

end MailboxLedger
end LibtorrentKit
