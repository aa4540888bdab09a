/-
  The end of a torrent's statuses, and what one read takes.

  A torrent is closed once it has been retired, or has completed, or its selection was found
  invalid. No status of it is pending then (`Orderly.closed`), and it stays closed until it is
  added again (`Silent`). A read takes the event that `front` returns and leaves every other one
  (`pop_takesFront`).
-/
import LibtorrentKit.Mailbox.Freshness

namespace LibtorrentKit

open Finmap (lookup_insert lookup_insert_of_ne lookup_erase lookup_erase_ne)

namespace EventMailbox

/-! ## Closed torrents -/

/-- No status of the torrent is accepted any more. -/
def Job.closed (job : Job) : Bool :=
  job.retired || decide (Kind.completed ∈ job.deliveredOrPending) ||
    decide (Kind.invalidSelection ∈ job.deliveredOrPending)

/-- The record of a torrent that is not added anew: it stays closed, and when it is closed its
    status is gone, or was there when it was closed already. -/
structure Job.Later (job job' : Job) : Prop where
  closed : job.closed = true → job'.closed = true
  status : job'.closed = true → job'.status = none ∨ job'.status = job.status ∧ job.closed = true

theorem Job.Later.refl (job : Job) : job.Later job := ⟨id, fun h => Or.inr ⟨rfl, h⟩⟩

/-- Without its status, and no less closed. -/
theorem Job.Later.of_none {job job' : Job} (hstatus : job'.status = none)
    (hclosed : job.closed = true → job'.closed = true) : job.Later job' :=
  ⟨hclosed, fun _ => Or.inl hstatus⟩

theorem Job.Later.of_same {job job' : Job} (hstatus : job'.status = job.status)
    (hclosed : job'.closed = job.closed) : job.Later job' :=
  ⟨fun h => hclosed.trans h, fun h => Or.inr ⟨hstatus, hclosed.symm.trans h⟩⟩

/-- Every torrent was there before, and goes on. -/
def Follows (m m' : EventMailbox) : Prop :=
  ∀ i job', m'.jobs_.lookup i = some job' → ∃ job, m.jobs_.lookup i = some job ∧ job.Later job'

variable {m m' : EventMailbox} {id : String} {job job' : Job}

theorem Follows.same (h : m'.jobs_ = m.jobs_) : Follows m m' :=
  fun i job' hi => ⟨job', by rw [← h, hi], .refl job'⟩

/-- The record of one torrent changes. -/
theorem Follows.insert (h : m'.jobs_ = m.jobs_.insert id job')
    (hjob : m.jobs_.lookup id = some job) (hlater : job.Later job') : Follows m m' := by
  intro i job'' hi
  rw [h] at hi
  by_cases heq : i = id
  · subst heq
    rw [lookup_insert] at hi
    obtain rfl := Option.some.inj hi
    exact ⟨job, hjob, hlater⟩
  · rw [lookup_insert_of_ne _ heq] at hi
    exact ⟨job'', hi, .refl job''⟩

theorem Follows.erase (h : m'.jobs_ = m.jobs_.erase id) : Follows m m' := by
  intro i job' hi
  rw [h] at hi
  by_cases heq : i = id
  · subst heq
    rw [lookup_erase] at hi
    cases hi
  · rw [lookup_erase_ne heq] at hi
    exact ⟨job', hi, .refl job'⟩

/-! ## The operations -/

theorem retire_follows (m : EventMailbox) (id : String) : Follows m (m.retire id) := by
  unfold EventMailbox.retire
  split
  · exact .same rfl
  · next job hjob =>
      split
      · exact .erase rfl
      · exact .insert rfl hjob (.of_none rfl fun _ => rfl)

theorem critical_follows {alloc : Allocator} {kind : Kind} {json : String}
    (h : m.critical alloc id kind json = .ok m') : Follows m m' := by
  unfold EventMailbox.critical at h
  split at h
  · cases h
  · next job hjob =>
      split at h
      · split at h
        · split at h
          · cases h
          · obtain rfl := Except.ok.inj h
            exact .same rfl
        · obtain rfl := Except.ok.inj h
          exact .insert rfl hjob (.of_none rfl fun hc => hc)
      · split at h
        · obtain rfl := Except.ok.inj h
          exact .same rfl
        · obtain rfl := Except.ok.inj h
          refine .insert rfl hjob (.of_none rfl fun hc => ?_)
          simp only [Job.closed, Bool.or_eq_true, decide_eq_true_eq] at hc ⊢
          exact hc.imp (Or.imp_right Finset.mem_insert_of_mem) Finset.mem_insert_of_mem

theorem status_follows {json : String} (h : m.status id json = .ok m') : Follows m m' := by
  unfold EventMailbox.status at h
  split at h
  · cases h
  · next job hjob =>
      split at h
      · obtain rfl := Except.ok.inj h
        exact .same rfl
      · next hopen =>
          obtain rfl := Except.ok.inj h
          have hnot : job.closed ≠ true := by
            simpa [Job.closed, or_assoc] using hopen
          exact .insert rfl hjob ⟨fun hc => hc, fun hc => absurd hc hnot⟩

theorem pop_follows {order : List String} (h : m.pop order = .ok m') : Follows m m' := by
  unfold EventMailbox.pop at h
  split at h
  · split at h
    · cases h
    · split at h
      · cases h
      · next job hjob =>
          split at h
          · cases h
          · obtain rfl := Except.ok.inj h
            unfold popLast
            dsimp only
            split
            · exact .erase rfl
            · exact .insert rfl hjob (.of_same rfl rfl)
    · obtain rfl := Except.ok.inj h
      exact .same rfl
  · split at h
    · obtain rfl := Except.ok.inj h
      exact .same rfl
    · split at h
      · obtain rfl := Except.ok.inj h
        exact .same rfl
      · next job hjob =>
          obtain rfl := Except.ok.inj h
          exact .insert rfl hjob (.of_none rfl fun hc => hc)

/-! ## Statuses of closed torrents -/

/-- What holds of every mailbox: a closed torrent has no status pending. -/
structure Orderly (m : EventMailbox) : Prop where
  wellFormed : m.WellFormed
  closed : ∀ id job, m.jobs_.lookup id = some job → job.closed = true → job.status = none

theorem Orderly.empty : Orderly {} where
  wellFormed := .empty
  closed id job h := by simp at h

theorem Orderly.follows (h : m.Orderly) (hwf : m'.WellFormed) (hm : Follows m m') :
    m'.Orderly := by
  refine ⟨hwf, fun i job' hi hclosed => ?_⟩
  obtain ⟨job, hjob, hlater⟩ := hm i job' hi
  rcases hlater.status hclosed with hnone | ⟨hsame, hold⟩
  · exact hnone
  · rw [hsame]
    exact h.closed i job hjob hold

theorem Orderly.add (h : m.Orderly) (id : String) : (m.add id).Orderly := by
  refine ⟨h.wellFormed.add id, fun i job hi hclosed => ?_⟩
  unfold EventMailbox.add at hi
  split at hi
  · exact h.closed i job hi hclosed
  · by_cases heq : i = id
    · subst heq
      rw [lookup_insert] at hi
      obtain rfl := Option.some.inj hi
      rfl
    · rw [lookup_insert_of_ne _ heq] at hi
      exact h.closed i job hi hclosed

/-- No status of `id` is accepted before it is added again. -/
def Silent (m : EventMailbox) (id : String) : Prop :=
  ∀ job, m.jobs_.lookup id = some job → job.closed = true

theorem Silent.pending (hm : m.Orderly) (h : m.Silent id) : m.pending id = none := by
  unfold EventMailbox.pending
  cases hjob : m.jobs_.lookup id with
  | none => rfl
  | some job => exact hm.closed id job hjob (h job hjob)

theorem Silent.follows (h : m.Silent id) (hm : Follows m m') : m'.Silent id := by
  intro job' hi
  obtain ⟨job, hjob, hlater⟩ := hm id job' hi
  exact hlater.closed (h job hjob)

theorem Silent.add {i : String} (h : m.Silent id) (hi : i ≠ id) : (m.add i).Silent id := by
  intro job hjob
  unfold EventMailbox.add at hjob
  split at hjob
  · exact h job hjob
  · rw [lookup_insert_of_ne _ hi.symm] at hjob
    exact h job hjob

theorem silent_retire (m : EventMailbox) (id : String) : (m.retire id).Silent id := by
  intro job hjob
  unfold EventMailbox.retire at hjob
  split at hjob
  · next hnone =>
      rw [hnone] at hjob
      cases hjob
  · split at hjob
    · rw [lookup_erase] at hjob
      cases hjob
    · rw [lookup_insert] at hjob
      obtain rfl := Option.some.inj hjob
      rfl

/-- The torrent has completed, or its selection is invalid, whether this is recorded now or was
    before. -/
theorem silent_critical {alloc : Allocator} {kind : Kind} {json : String}
    (hkind : kind = .completed ∨ kind = .invalidSelection)
    (h : m.critical alloc id kind json = .ok m') : m'.Silent id := by
  intro job' hjob'
  have hne : kind ≠ .error := by
    rcases hkind with rfl | rfl
    · decide
    · decide
  have hclosed : ∀ job : Job, kind ∈ job.deliveredOrPending → job.closed = true := by
    intro job hmem
    simp only [Job.closed, Bool.or_eq_true, decide_eq_true_eq]
    rcases hkind with rfl | rfl
    · exact Or.inl (Or.inr hmem)
    · exact Or.inr hmem
  unfold EventMailbox.critical at h
  split at h
  · cases h
  · next job hjob =>
      rw [if_neg hne] at h
      split at h
      · next hmem =>
          obtain rfl := Except.ok.inj h
          obtain rfl := Option.some.inj (hjob.symm.trans hjob')
          exact hclosed job hmem
      · obtain rfl := Except.ok.inj h
        unfold pushCritical at hjob'
        rw [lookup_insert] at hjob'
        obtain rfl := Option.some.inj hjob'
        exact hclosed _ (Finset.mem_insert_self _ _)

/-! ## What one read takes -/

/-- The occurrences of critical events that are queued, each with its torrent. -/
def occurrences (m : EventMailbox) : List (String × String) :=
  m.critical_.flatMap fun e => e.expand.map fun json => (e.id, json)

/-- From `m` to `m'` the event that `front` returns is taken, and no other: the first occurrence
    of a critical event, or the status that is found first when there is none. -/
def TakesFront (m m' : EventMailbox) (order : List String) : Prop :=
  match m.occurrences with
  | (_, json) :: rest =>
      m.front order = some json ∧ m'.occurrences = rest ∧ m'.pending = m.pending
  | [] =>
      m'.occurrences = [] ∧
        match m.statusHolder order with
        | some id =>
            m.front order = m.pending id ∧ (m.pending id).isSome = true ∧
              m'.pending = Function.update m.pending id none
        | none => m.front order = none ∧ m' = m

theorem occurrences_cons {e : Entry} {rest : List Entry} {n : Nat}
    (hcritical : m.critical_ = e :: rest) (hcount : e.count = n + 1) :
    m.occurrences = (e.id, e.json) ::
      occurrences { m with critical_ := { e with count := n } :: rest } := by
  simp [occurrences, hcritical, Entry.expand, hcount, List.replicate_succ]

theorem occurrences_spent (m : EventMailbox) (e : Entry) (rest : List Entry) :
    occurrences { m with critical_ := { e with count := 0 } :: rest } =
      occurrences { m with critical_ := rest } := by
  simp [occurrences, Entry.expand]

/-- The last occurrence of an entry takes no status with it: that of a retired torrent is gone
    already. -/
theorem popLast_pending (h : m.Orderly) {e : Entry} {rest : List Entry}
    (hjob : m.jobs_.lookup e.id = some job) : (m.popLast e rest job).pending = m.pending := by
  funext i
  have hold : m.pending e.id = job.status := by
    rw [pending, hjob, Option.bind_some]
  unfold popLast
  dsimp only
  split
  · next hretired =>
      rw [pending_eraseJob]
      split
      · next hi =>
          rw [hi, hold, h.closed e.id job hjob (by simp [Job.closed, hretired.1])]
      · rfl
  · rw [pending_setJob]
    split
    · next hi => rw [hi, hold]
    · rfl

theorem pop_takesFront {order : List String} (h : m.Orderly) (hpop : m.pop order = .ok m') :
    TakesFront m m' order := by
  unfold EventMailbox.pop at hpop
  split at hpop
  · next e rest hcritical =>
      have hfront : m.front order = some e.json := by rw [front, hcritical]
      split at hpop
      · cases hpop
      · next hcount =>
          split at hpop
          · cases hpop
          · next job hjob =>
              split at hpop
              · cases hpop
              · obtain rfl := Except.ok.inj hpop
                unfold TakesFront
                rw [occurrences_cons hcritical hcount, occurrences_spent]
                exact ⟨hfront, rfl, popLast_pending h hjob⟩
      · next n hcount =>
          obtain rfl := Except.ok.inj hpop
          unfold TakesFront
          rw [occurrences_cons hcritical hcount]
          exact ⟨hfront, rfl, rfl⟩
  · next hcritical =>
      have hnone : m.occurrences = [] := by rw [occurrences, hcritical, List.flatMap_nil]
      unfold TakesFront
      rw [hnone]
      split at hpop
      · next hholder =>
          obtain rfl := Except.ok.inj hpop
          rw [hholder]
          refine ⟨hnone, ?_, rfl⟩
          rw [front, hcritical, hholder, Option.bind_none]
      · next id hholder =>
          have hsome : (m.pending id).isSome = true := by
            simpa [pending] using List.find?_some hholder
          have hfront : m.front order = m.pending id := by
            rw [front, hcritical, hholder, Option.bind_some, pending]
          rw [hholder]
          split at hpop
          · next hjob =>
              rw [pending, hjob, Option.bind_none] at hsome
              cases hsome
          · next job hjob =>
              obtain rfl := Except.ok.inj hpop
              refine ⟨hnone, hfront, hsome, ?_⟩
              funext i
              rw [pending_setJob]
              split
              · next hi => rw [hi, Function.update_self]
              · next hi => rw [Function.update_of_ne hi]

end EventMailbox

namespace MailboxTrace

open EventMailbox

/-! ## Runs -/

variable {m m' : EventMailbox} {op : MailboxOp} {id : String}

theorem Used.follows (h : Used m op m') (hop : ∀ id, op ≠ .add id) : Follows m m' := by
  cases h with
  | add id => exact absurd rfl (hop id)
  | retire id => exact retire_follows m id
  | critical h => exact critical_follows h
  | status h => exact status_follows h
  | pop h => exact pop_follows h
  | criticalThrows | statusThrows | keep => exact .same rfl

theorem Used.orderly (h : Used m op m') (hm : m.Orderly) : m'.Orderly := by
  have hfollows := h.follows
  cases h with
  | add id => exact hm.add id
  | retire id => exact hm.follows (hm.wellFormed.retire id) (hfollows (by simp))
  | critical h => exact hm.follows (hm.wellFormed.critical h) (hfollows (by simp))
  | status h => exact hm.follows (hm.wellFormed.status h) (hfollows (by simp))
  | pop h => exact hm.follows (hm.wellFormed.pop h) (hfollows (by simp))
  | criticalThrows | statusThrows | keep => exact hm

theorem run_orderly {ops : List MailboxOp} {t : MailboxTrace}
    (hrun : Lts.exec step {} ops = some t) : t.mailbox.Orderly :=
  Lts.exec_invariant' (fun t : MailboxTrace => t.mailbox.Orderly) .empty
    (fun _ _ _ h hstep => (step_used hstep).orderly h) ops t hrun

theorem Used.silent (h : Used m op m') (hm : m.Silent id) (hop : op ≠ .add id) :
    m'.Silent id := by
  by_cases hadd : ∃ i, op = .add i
  · obtain ⟨i, rfl⟩ := hadd
    cases h with
    | add =>
        refine hm.add fun heq => hop ?_
        rw [heq]
  · exact hm.follows (h.follows fun i heq => hadd ⟨i, heq⟩)

/-- The operation ends the statuses of `id`. -/
def ends (id : String) : MailboxOp → Bool
  | .retire i => decide (i = id)
  | .critical _ i kind _ =>
      decide (i = id) && (decide (kind = .completed) || decide (kind = .invalidSelection))
  | _ => false

theorem Used.ends_silent (h : Used m op m') (hop : ends id op = true) : m'.Silent id := by
  cases h with
  | retire i =>
      obtain rfl : i = id := of_decide_eq_true hop
      exact silent_retire m i
  | critical h =>
      simp only [ends, Bool.and_eq_true, Bool.or_eq_true, decide_eq_true_eq] at hop
      obtain ⟨rfl, hkind⟩ := hop
      exact silent_critical hkind h
  | criticalThrows h =>
      simp only [ends, Bool.and_eq_true, decide_eq_true_eq] at hop
      obtain ⟨rfl, _⟩ := hop
      intro job hjob
      rw [h] at hjob
      cases hjob
  | add | status | statusThrows | keep | pop => cases hop

theorem exec_silent {ops : List MailboxOp} {t t' : MailboxTrace}
    (hrun : Lts.exec step t ops = some t') (h : t.mailbox.Silent id)
    (hops : ∀ op ∈ ops, op ≠ .add id) : t'.mailbox.Silent id := by
  refine @Lts.exec_invariant _ _ step (fun t : MailboxTrace => t.mailbox.Silent id)
    (fun _ op => op ≠ .add id) t h
    (fun _ _ _ ht hop hstep => (step_used hstep).silent ht hop) ops t' ?_ hrun
  intro pre op s hpre _
  exact hops op (hpre.subset (List.mem_append_right pre List.mem_cons_self))

/-- **Statuses end with the lifecycle, and reads are consistent.** After every sequence of uses of
    the mailbox: a `pop` takes the event that `front` has returned, and leaves every other
    pending one; while a critical event of any torrent is queued that is a critical event. And
    once a torrent has been retired, or has completed, or its selection was found invalid, no
    status of it is pending or handed out before it is added again. -/
theorem statuses_end {ops : List MailboxOp} {t : MailboxTrace}
    (hrun : Lts.exec step {} ops = some t) :
    (∀ order, ∃ m', t.mailbox.pop order = .ok m' ∧ TakesFront t.mailbox m' order) ∧
    ∀ id pre op post, ops = pre ++ op :: post → ends id op = true →
      (∀ op' ∈ post, op' ≠ .add id) →
        t.mailbox.pending id = none ∧ ∀ order json, ¬ t.mailbox.HandsOut order id json := by
  have horderly := run_orderly hrun
  refine ⟨fun order => ?_, fun id pre op post hops hends hpost => ?_⟩
  · obtain ⟨m', hpop⟩ := horderly.wellFormed.pop_defined order
    exact ⟨m', hpop, pop_takesFront horderly hpop⟩
  · have hsilent : t.mailbox.Silent id := by
      rw [hops, Lts.exec_append, Option.bind_eq_some_iff] at hrun
      obtain ⟨u, _, hrest⟩ := hrun
      rw [Lts.exec_cons, Option.bind_eq_some_iff] at hrest
      obtain ⟨v, hstep, hafter⟩ := hrest
      exact exec_silent hafter ((step_used hstep).ends_silent hends) hpost
    have hnone := hsilent.pending horderly
    refine ⟨hnone, fun order json hout => ?_⟩
    have hsome := hout.pending
    rw [hnone] at hsome
    cases hsome

/-- A torrent completes while a status of it is pending, and goes on downloading. -/
def finishedRun : List MailboxOp :=
  [.add "a", .status "a" "s"] ++ .critical bumpAllocator "a" .completed "c" ::
    [.status "a" "s'", .nextEvent ["a"] true, .status "a" "s''"]

/-- The completion is read, and no status before it or after it. -/
theorem finishedRun_ends : ∃ t, Lts.exec step {} finishedRun = some t ∧
    t.mailbox.pending "a" = none ∧ t.mailbox.occurrences = [] ∧
    ∃ m', t.mailbox.pop ["a"] = .ok m' ∧ TakesFront t.mailbox m' ["a"] := by
  have hlog : (Lts.exec step {} finishedRun).map (fun t => t.mailbox.occurrences) = some [] := by
    decide +kernel
  obtain ⟨t, hrun, hempty⟩ := Option.map_eq_some_iff.mp hlog
  obtain ⟨htakes, hends⟩ := statuses_end hrun
  exact ⟨t, hrun, (hends "a" _ _ _ rfl (by decide) (by simp)).1, hempty, htakes ["a"]⟩

end MailboxTrace

end LibtorrentKit
