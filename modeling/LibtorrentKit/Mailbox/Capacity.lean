/-
  The bounds of the event mailbox.

  Between two error runs of a torrent that are queued lies a one-shot entry, and there are four
  one-shot kinds: a torrent has at most nine entries queued (`JobBounded.alternates`), and the
  mailbox admits at most 256 torrents. No reader is needed for that: `mailbox_bounded` holds
  after every sequence of uses.

  `MailboxAudit` adds to a run what the mailbox does not keep: the kind of each node, and
  whether a torrent has been retired since its last `add`.
-/
import LibtorrentKit.Mailbox.Delivery
import Mathlib.Algebra.BigOperators.Group.Finset.Piecewise
import Mathlib.Algebra.Order.BigOperators.Group.Finset

namespace LibtorrentKit

open EventMailbox

/-- What a torrent has been through since its last `add`. -/
inductive Tenure where
  | never
  | current
  | retired
  deriving DecidableEq, Repr

def Tenure.after (id : String) (op : MailboxOp) (t : Tenure) : Tenure :=
  match op with
  | .add i => if i = id then .current else t
  | .retire i => if i = id ∧ t = .current then .retired else t
  | _ => t

/-- The kind of a node that the operation queues. -/
def MailboxOp.kind : MailboxOp → Option Kind
  | .critical _ _ kind _ => some kind
  | _ => none

/-- A run of the mailbox, with the kinds of its nodes and the tenures of its torrents. -/
structure MailboxAudit where
  trace : MailboxTrace := {}
  kindOf : Addr → Option Kind := fun _ => none
  tenure : String → Tenure := fun _ => .never

def MailboxAudit.step (t : MailboxAudit) (op : MailboxOp) : Option MailboxAudit :=
  (t.trace.step op).map fun trace =>
    { trace
      kindOf := fun a =>
        if a ∈ t.trace.mailbox.critical_.map Entry.addr then t.kindOf a else op.kind
      tenure := fun id => (t.tenure id).after id op }

/-! ## The invariant -/

/-- What holds of the record of one torrent. -/
structure JobBounded (kindOf : Addr → Option Kind) (tenure : Tenure) (job : EventMailbox.Job) :
    Prop where
  /-- Two error runs are separated by a one-shot entry, queued or already read. -/
  alternates : job.pending ≤
    2 * job.deliveredOrPending.card + if job.lastError.isSome then 1 else 0
  oneShots : ∀ k ∈ job.deliveredOrPending, k.oneShot = true
  errorEntry : ∀ p, job.lastError = some p → kindOf p = some .error
  quiet : job.retired = true → 0 < job.pending ∧ job.status = none
  tenure : tenure = if job.retired then .retired else .current

structure Bounded (m : EventMailbox) (kindOf : Addr → Option Kind) (tenure : String → Tenure) :
    Prop where
  wellFormed : m.WellFormed
  capacity : m.jobs_.keys.card ≤ maxJobs
  jobs : ∀ id job, m.jobs_.lookup id = some job → JobBounded kindOf (tenure id) job
  absent : ∀ id, tenure id = .never → m.jobs_.lookup id = none
  left : ∀ id, m.jobs_.lookup id = none → tenure id ≠ .current

/-- There are four one-shot kinds. -/
theorem card_oneShots {s : Finset Kind} (h : ∀ k ∈ s, k.oneShot = true) : s.card ≤ 4 := by
  have hsub : s ⊆ {.metadata, .completed, .stopped, .invalidSelection} := by
    intro k hk
    have hone := h k hk
    cases k <;> simp_all [Kind.oneShot]
  exact (Finset.card_le_card hsub).trans (by decide)

theorem JobBounded.pending_le {kindOf : Addr → Option Kind} {tenure : Tenure}
    {job : EventMailbox.Job} (h : JobBounded kindOf tenure job) : job.pending ≤ 9 := by
  have hcard := card_oneShots h.oneShots
  have halternates := h.alternates
  split at halternates <;> omega

section Steps

variable {m : EventMailbox} {kindOf kindOf' : Addr → Option Kind} {tenure : String → Tenure}

/-- The nodes of a torrent that keep their kind keep its bounds. -/
theorem Bounded.job (h : Bounded m kindOf tenure)
    (hkind : ∀ a ∈ m.critical_.map Entry.addr, kindOf' a = kindOf a) {id : String}
    {job : EventMailbox.Job} (hj : m.jobs_.lookup id = some job) :
    JobBounded kindOf' (tenure id) job := by
  obtain ⟨h1, h2, h3, h4, h5⟩ := h.jobs id job hj
  refine ⟨h1, h2, fun p hp => ?_, h4, h5⟩
  obtain ⟨init, e, hentries, hep⟩ := h.wellFormed.lastError id job p hj hp
  have hmem : e ∈ entriesOf id m.critical_ := by simp [hentries]
  rw [hkind p (hep ▸ List.mem_map_of_mem (mem_entriesOf.mp hmem).1)]
  exact h3 p hp

/-- The record of one torrent is replaced. -/
theorem Bounded.setJob (h : Bounded m kindOf tenure) {m' : EventMailbox} {tenure' : String → Tenure}
    (hwf : m'.WellFormed) (hkind : ∀ a ∈ m.critical_.map Entry.addr, kindOf' a = kindOf a)
    {id : String} {job' : EventMailbox.Job} (hjobs : m'.jobs_ = m.jobs_.insert id job')
    (hcard : (m.jobs_.insert id job').keys.card ≤ maxJobs)
    (hjob : JobBounded kindOf' (tenure' id) job')
    (hother : ∀ i, i ≠ id → tenure' i = tenure i) : Bounded m' kindOf' tenure' where
  wellFormed := hwf
  capacity := hjobs ▸ hcard
  jobs := by
    intro i job hj
    rw [hjobs] at hj
    by_cases hi : i = id
    · subst hi
      rw [Finmap.lookup_insert, Option.some.injEq] at hj
      exact hj ▸ hjob
    · rw [Finmap.lookup_insert_of_ne _ hi] at hj
      rw [hother i hi]
      exact h.job hkind hj
  absent := by
    intro i hi
    by_cases hid : i = id
    · subst hid
      have htenure := hjob.tenure
      rw [hi] at htenure
      split at htenure <;> cases htenure
    · rw [hjobs, Finmap.lookup_insert_of_ne _ hid]
      exact h.absent i (hother i hid ▸ hi)
  left := by
    intro i hi
    rw [hjobs] at hi
    by_cases hid : i = id
    · subst hid
      simp at hi
    · rw [Finmap.lookup_insert_of_ne _ hid] at hi
      rw [hother i hid]
      exact h.left i hi

/-- A torrent that is there is counted already. -/
theorem card_insert_of_lookup {id : String} {job job' : EventMailbox.Job}
    (hj : m.jobs_.lookup id = some job) :
    (m.jobs_.insert id job').keys.card = m.jobs_.keys.card := by
  congr 1
  ext i
  rw [Finmap.mem_keys, Finmap.mem_keys, Finmap.mem_insert]
  refine ⟨?_, Or.inr⟩
  rintro (rfl | hi)
  · exact Finmap.mem_of_lookup_eq_some hj
  · exact hi

theorem card_insert_le (id : String) (job : EventMailbox.Job) :
    (m.jobs_.insert id job).keys.card ≤ m.jobs_.keys.card + 1 := by
  have hsub : (m.jobs_.insert id job).keys ⊆ insert id m.jobs_.keys := by
    intro i hi
    rw [Finmap.mem_keys, Finmap.mem_insert] at hi
    rw [Finset.mem_insert, Finmap.mem_keys]
    exact hi
  exact (Finset.card_le_card hsub).trans (Finset.card_insert_le _ _)

/-- The record of one torrent is erased, after it has been retired. -/
theorem Bounded.eraseJob (h : Bounded m kindOf tenure) {m' : EventMailbox}
    {tenure' : String → Tenure} (hwf : m'.WellFormed)
    (hkind : ∀ a ∈ m.critical_.map Entry.addr, kindOf' a = kindOf a) {id : String}
    (hjobs : m'.jobs_ = m.jobs_.erase id) (hretired : tenure' id = .retired)
    (hother : ∀ i, i ≠ id → tenure' i = tenure i) : Bounded m' kindOf' tenure' where
  wellFormed := hwf
  capacity := by
    rw [hjobs, Finmap.keys_erase]
    exact (Finset.card_le_card (Finset.erase_subset _ _)).trans h.capacity
  jobs := by
    intro i job hj
    have hi : i ≠ id := by
      rintro rfl
      rw [hjobs, Finmap.lookup_erase] at hj
      cases hj
    rw [hjobs, Finmap.lookup_erase_ne hi] at hj
    rw [hother i hi]
    exact h.job hkind hj
  absent := by
    intro i hi
    have hid : i ≠ id := by
      rintro rfl
      rw [hretired] at hi
      cases hi
    rw [hjobs, Finmap.lookup_erase_ne hid]
    exact h.absent i (hother i hid ▸ hi)
  left := by
    intro i hi
    by_cases hid : i = id
    · subst hid
      rw [hretired]
      simp
    · rw [hjobs, Finmap.lookup_erase_ne hid] at hi
      rw [hother i hid]
      exact h.left i hi

/-- The records stay as they are. -/
theorem Bounded.same (h : Bounded m kindOf tenure) {m' : EventMailbox} (hwf : m'.WellFormed)
    (hkind : ∀ a ∈ m.critical_.map Entry.addr, kindOf' a = kindOf a) (hjobs : m'.jobs_ = m.jobs_) :
    Bounded m' kindOf' tenure where
  wellFormed := hwf
  capacity := hjobs ▸ h.capacity
  jobs := fun _ _ hj => h.job hkind (hjobs ▸ hj)
  absent := hjobs ▸ h.absent
  left := hjobs ▸ h.left

end Steps

/-! ## Steps -/

section Operations

variable {m : EventMailbox} {kindOf kindOf' : Addr → Option Kind} {tenure tenure' : String → Tenure}

theorem Bounded.add (h : Bounded m kindOf tenure) {id : String} (hcan : m.canAdd id = true)
    (hkind : ∀ a ∈ m.critical_.map Entry.addr, kindOf' a = kindOf a) (hid : tenure' id = .current)
    (hother : ∀ i, i ≠ id → tenure' i = tenure i) : Bounded (m.add id) kindOf' tenure' := by
  simp only [canAdd, Bool.and_eq_true, decide_eq_true_eq] at hcan
  obtain ⟨hroom, hfree⟩ := hcan
  have hjobs : (m.add id).jobs_ = m.jobs_.insert id {} := by simp [EventMailbox.add, hfree]
  refine h.setJob (h.wellFormed.add id) hkind hjobs ?_
    ⟨by simp, by simp, by simp, by simp, by simpa using hid⟩ hother
  exact (card_insert_le id {}).trans hroom

theorem Bounded.retire (h : Bounded m kindOf tenure) {id : String}
    (hkind : ∀ a ∈ m.critical_.map Entry.addr, kindOf' a = kindOf a)
    (hid : tenure' id = if tenure id = .current then .retired else tenure id)
    (hother : ∀ i, i ≠ id → tenure' i = tenure i) : Bounded (m.retire id) kindOf' tenure' := by
  have hwf := h.wellFormed.retire id
  have hunchanged : tenure id ≠ .current → tenure' = tenure := by
    intro hne
    funext i
    by_cases hi : i = id
    · subst hi
      rw [hid, if_neg hne]
    · exact hother i hi
  cases hj : m.jobs_.lookup id with
  | none =>
      rw [hunchanged (h.left id hj)]
      exact h.same hwf hkind (by simp [EventMailbox.retire, hj])
  | some job =>
      have hjob := h.jobs id job hj
      have hretired : tenure' id = .retired := by
        rw [hid, hjob.tenure]
        split <;> rfl
      by_cases h0 : job.pending = 0
      · exact h.eraseJob hwf hkind (by simp [EventMailbox.retire, hj, h0]) hretired hother
      · refine h.setJob hwf hkind (by simp [EventMailbox.retire, hj, h0]; rfl) ?_ ?_ hother
        · exact (card_insert_of_lookup hj).symm ▸ h.capacity
        · obtain ⟨h1, h2, h3, h4, h5⟩ := h.job hkind hj
          exact ⟨h1, h2, h3, fun _ => ⟨Nat.pos_of_ne_zero h0, rfl⟩, hretired⟩

/-- An entry is queued: after an error run only a one-shot entry, which is new. -/
theorem Bounded.critical (h : Bounded m kindOf tenure) {m' : EventMailbox} {alloc : Allocator}
    {id : String} {kind : Kind} {json : String} (hc : m.critical alloc id kind json = .ok m')
    (hkind : ∀ a ∈ m.critical_.map Entry.addr, kindOf' a = kindOf a)
    (hnew : ∀ a, a ∉ m.critical_.map Entry.addr → kindOf' a = some kind) :
    Bounded m' kindOf' tenure := by
  have hwf := h.wellFormed.critical hc
  unfold EventMailbox.critical at hc
  split at hc
  · cases hc
  · next job hj =>
      obtain ⟨h1, h2, h3, h4, h5⟩ := h.job hkind hj
      have hcapacity : ∀ job', (m.jobs_.insert id job').keys.card ≤ maxJobs := fun job' =>
        (card_insert_of_lookup hj).symm ▸ h.capacity
      split at hc
      · next herror =>
          subst herror
          split at hc
          · split at hc
            · cases hc
            · obtain rfl := Except.ok.inj hc
              exact h.same hwf hkind rfl
          · next hnone =>
              obtain rfl := Except.ok.inj hc
              refine h.setJob hwf hkind rfl (hcapacity _) ⟨?_, h2, ?_, ?_, h5⟩ fun _ _ => rfl
              · simp only [hnone, Option.isSome_none, Bool.false_eq_true, if_false, if_true,
                  Option.isSome_some] at h1 ⊢
                omega
              · intro p hp
                obtain rfl := Option.some.inj hp
                exact hnew _ (alloc (m.critical_.map Entry.addr)).2
              · exact fun hr => ⟨Nat.succ_pos _, rfl⟩
      · next hone =>
          split at hc
          · obtain rfl := Except.ok.inj hc
            exact h.same hwf hkind rfl
          · next hfresh =>
              obtain rfl := Except.ok.inj hc
              refine h.setJob hwf hkind rfl (hcapacity _) ⟨?_, ?_, ?_, ?_, h5⟩ fun _ _ => rfl
              · simp only [hone, if_false, Option.isSome_none, Bool.false_eq_true,
                  Finset.card_insert_of_notMem hfresh]
                split at h1 <;> omega
              · intro k hk
                rcases Finset.mem_insert.mp hk with rfl | hk
                · cases k <;> simp_all [Kind.oneShot]
                · exact h2 k hk
              · intro p hp
                simp [hone] at hp
              · exact fun hr => ⟨Nat.succ_pos _, rfl⟩

theorem Bounded.status (h : Bounded m kindOf tenure) {m' : EventMailbox} {id json : String}
    (hc : m.status id json = .ok m')
    (hkind : ∀ a ∈ m.critical_.map Entry.addr, kindOf' a = kindOf a) :
    Bounded m' kindOf' tenure := by
  have hwf := h.wellFormed.status hc
  unfold EventMailbox.status at hc
  split at hc
  · cases hc
  · next job hj =>
      split at hc
      · obtain rfl := Except.ok.inj hc
        exact h.same hwf hkind rfl
      · next hopen =>
          obtain rfl := Except.ok.inj hc
          obtain ⟨h1, h2, h3, h4, h5⟩ := h.job hkind hj
          refine h.setJob hwf hkind rfl ((card_insert_of_lookup hj).symm ▸ h.capacity)
            ⟨h1, h2, h3, fun hr => absurd (Or.inl hr) hopen, h5⟩ fun _ _ => rfl

/-- The run that `last_error` designates is the last entry of its torrent: when it is at the
    head of the list, it is the only one. -/
theorem WellFormed.only_entry (h : m.WellFormed) {e : Entry} {rest : List Entry}
    {job : EventMailbox.Job} (hm : m.critical_ = e :: rest) (hj : m.jobs_.lookup e.id = some job)
    (hp : job.lastError = some e.addr) : job.pending = 1 := by
  obtain ⟨init, x, hentries, hx⟩ := h.lastError e.id job e.addr hj hp
  have hpending := h.pending e.id job hj
  have hhead : entriesOf e.id m.critical_ = e :: entriesOf e.id rest := by
    rw [hm, entriesOf_cons_self]
  cases init with
  | nil => rw [hpending, hentries, List.nil_append, List.length_singleton]
  | cons y init =>
      have hnodup := h.addrs
      rw [hm, List.map_cons, List.nodup_cons] at hnodup
      have hlast : x ∈ entriesOf e.id rest := by
        rw [hhead, List.cons_append, List.cons.injEq] at hentries
        simp [hentries.2]
      exact absurd (hx ▸ List.mem_map_of_mem (mem_entriesOf.mp hlast).1) hnodup.1

theorem Bounded.popLast (h : Bounded m kindOf tenure) {e : Entry} {rest : List Entry}
    {job : EventMailbox.Job} (hwf : (popLast m e rest job).WellFormed)
    (hkind : ∀ a ∈ m.critical_.map Entry.addr, kindOf' a = kindOf a)
    (hm : m.critical_ = e :: rest) (hj : m.jobs_.lookup e.id = some job) :
    Bounded (popLast m e rest job) kindOf' tenure := by
  obtain ⟨h1, h2, h3, h4, h5⟩ := h.job hkind hj
  by_cases hgone : job.retired = true ∧ job.pending - 1 = 0
  · have hjobs : (EventMailbox.popLast m e rest job).jobs_ = m.jobs_.erase e.id := if_pos hgone
    refine h.eraseJob hwf hkind hjobs ?_ fun _ _ => rfl
    rw [h5, if_pos hgone.1]
  · have hjobs : (EventMailbox.popLast m e rest job).jobs_ = m.jobs_.insert e.id { job with
        lastError := if job.lastError = some e.addr then none else job.lastError
        pending := job.pending - 1 } := if_neg hgone
    refine h.setJob hwf hkind hjobs ((card_insert_of_lookup hj).symm ▸ h.capacity)
      ⟨?_, h2, fun p hp => ?_, ?_, h5⟩ fun _ _ => rfl
    · show job.pending - 1 ≤ 2 * job.deliveredOrPending.card +
        if (if job.lastError = some e.addr then none else job.lastError).isSome then 1 else 0
      by_cases hlast : job.lastError = some e.addr
      · have honly := WellFormed.only_entry h.wellFormed hm hj hlast
        omega
      · rw [if_neg hlast]
        omega
    · have hp : (if job.lastError = some e.addr then none else job.lastError) = some p := hp
      split at hp
      · cases hp
      · exact h3 p hp
    · intro hr
      obtain ⟨hpending, hstatus⟩ := h4 hr
      have hleft : job.pending - 1 ≠ 0 := fun h0 => hgone ⟨hr, h0⟩
      exact ⟨Nat.pos_of_ne_zero hleft, hstatus⟩

theorem Bounded.pop (h : Bounded m kindOf tenure) {m' : EventMailbox} {order : List String}
    (hc : m.pop order = .ok m')
    (hkind : ∀ a ∈ m.critical_.map Entry.addr, kindOf' a = kindOf a) :
    Bounded m' kindOf' tenure := by
  have hwf := h.wellFormed.pop hc
  unfold EventMailbox.pop at hc
  split at hc
  · next e rest hm =>
      split at hc
      · cases hc
      · split at hc
        · cases hc
        · next job hj =>
            split at hc
            · cases hc
            · obtain rfl := Except.ok.inj hc
              exact h.popLast hwf hkind hm hj
      · obtain rfl := Except.ok.inj hc
        exact h.same hwf hkind rfl
  · split at hc
    · obtain rfl := Except.ok.inj hc
      exact h.same hwf hkind rfl
    · split at hc
      · obtain rfl := Except.ok.inj hc
        exact h.same hwf hkind rfl
      · next job hj =>
          obtain rfl := Except.ok.inj hc
          obtain ⟨h1, h2, h3, h4, h5⟩ := h.job hkind hj
          exact h.setJob hwf hkind rfl ((card_insert_of_lookup hj).symm ▸ h.capacity)
            ⟨h1, h2, h3, fun hr => ⟨(h4 hr).1, rfl⟩, h5⟩ fun _ _ => rfl

end Operations

/-- Nothing is thrown for a torrent that is there. -/
theorem critical_of_lookup {m : EventMailbox} {id : String} {job : EventMailbox.Job}
    (hj : m.jobs_.lookup id = some job) {alloc : Allocator} {kind : Kind} {json : String} :
    m.critical alloc id kind json ≠ .error .outOfRange := by
  simp only [EventMailbox.critical, hj]
  split
  · split
    · split <;> simp
    · simp
  · split <;> simp

/-! ## Runs -/

/-- The entries of all torrents together. -/
theorem length_eq_sum_entriesOf {l : List Entry} {ids : Finset String}
    (h : ∀ e ∈ l, e.id ∈ ids) : l.length = ∑ id ∈ ids, (entriesOf id l).length := by
  induction l with
  | nil => simp [entriesOf]
  | cons e l ih =>
      have hsum : ∀ id, (entriesOf id (e :: l)).length =
          (entriesOf id l).length + if e.id = id then 1 else 0 := by
        intro id
        by_cases hid : e.id = id
        · subst hid
          simp [entriesOf_cons_self]
        · simp [entriesOf_cons_ne hid, hid]
      have hmem : e.id ∈ ids := h e List.mem_cons_self
      rw [Finset.sum_congr rfl fun id _ => hsum id, Finset.sum_add_distrib, Finset.sum_ite_eq,
        if_pos hmem, ← ih fun x hx => h x (List.mem_cons_of_mem _ hx), List.length_cons]

theorem Bounded.critical_length {m : EventMailbox} {kindOf : Addr → Option Kind}
    {tenure : String → Tenure} (h : Bounded m kindOf tenure) :
    m.critical_.length ≤ maxCriticalEntries := by
  have hkeys : ∀ e ∈ m.critical_, e.id ∈ m.jobs_.keys := fun e he =>
    Finmap.mem_keys.mpr (h.wellFormed.present e he)
  rw [length_eq_sum_entriesOf hkeys]
  have hnine : ∀ id ∈ m.jobs_.keys, (entriesOf id m.critical_).length ≤ 9 := by
    intro id hid
    obtain ⟨job, hj⟩ := Finmap.mem_iff.mp (Finmap.mem_keys.mp hid)
    rw [← h.wellFormed.pending id job hj]
    exact (h.jobs id job hj).pending_le
  calc ∑ id ∈ m.jobs_.keys, (entriesOf id m.critical_).length
      ≤ m.jobs_.keys.card * 9 := by
        rw [← Nat.nsmul_eq_mul]
        exact Finset.sum_le_card_nsmul _ _ _ hnine
    _ ≤ maxCriticalEntries := Nat.mul_le_mul_right 9 h.capacity

namespace MailboxAudit

theorem bounded_init : Bounded {} (fun _ => none) (fun _ => .never) where
  wellFormed := .empty
  capacity := by simp [maxJobs]
  jobs := by simp
  absent := by simp
  left := by simp

theorem bounded_step {t t' : MailboxAudit} {op : MailboxOp}
    (h : Bounded t.trace.mailbox t.kindOf t.tenure) (hs : t.step op = some t') :
    Bounded t'.trace.mailbox t'.kindOf t'.tenure := by
  obtain ⟨u, hu, rfl⟩ := Option.map_eq_some_iff.mp hs
  have hkind : ∀ a ∈ t.trace.mailbox.critical_.map Entry.addr,
      (if a ∈ t.trace.mailbox.critical_.map Entry.addr then t.kindOf a else op.kind) =
        t.kindOf a := fun a ha => if_pos ha
  have hadd : ∀ id, op = .add id → t.trace.mailbox.canAdd id = true := by
    rintro id rfl
    exact MailboxTrace.canAdd_of_step hu
  have hused := MailboxTrace.step_used hu
  dsimp only
  generalize u.mailbox = m at hused ⊢
  cases hused with
  | add id =>
      exact h.add (hadd id rfl) hkind (by simp [Tenure.after]) fun i hi => by
        simp [Tenure.after, Ne.symm hi]
  | retire id =>
      exact h.retire hkind (by simp [Tenure.after]) fun i hi => by
        simp [Tenure.after, Ne.symm hi]
  | critical hm => exact h.critical hm hkind fun a ha => if_neg ha
  | status hm => exact h.status hm hkind
  | pop hm => exact h.pop hm hkind
  | criticalThrows | statusThrows | keep => exact h.same h.wellFormed hkind rfl

theorem run_bounded {ops : List MailboxOp} {t : MailboxAudit}
    (hrun : Lts.exec step {} ops = some t) : Bounded t.trace.mailbox t.kindOf t.tenure :=
  Lts.exec_invariant' (fun t : MailboxAudit => Bounded t.trace.mailbox t.kindOf t.tenure)
    bounded_init (fun _ _ _ h hs => bounded_step h hs) ops t hrun

/-- What `mailbox_bounded` says of the record of one torrent. -/
structure JobInBounds (t : MailboxAudit) (id : String) (job : EventMailbox.Job) : Prop where
  counted : job.pending = (entriesOf id t.trace.mailbox.critical_).length
  bound : job.pending ≤ 9
  lastError : ∀ p, job.lastError = some p → ∃ init e,
    entriesOf id t.trace.mailbox.critical_ = init ++ [e] ∧ e.addr = p ∧
      t.trace.mailbox.deref p = some e ∧ t.kindOf p = some .error
  retired : job.retired = true → 0 < job.pending ∧ job.status = none

/-- **The mailbox stays within its bounds.** After every sequence of uses: at most 256 torrents;
    each with at most nine entries, as many as its `pending` says, whose `last_error` is null or
    designates its last entry, an error; at most 2304 entries, each with a positive count and
    of a torrent that is there; retired torrents that are still there have entries and no
    status. An identifier that was added is free again exactly when it has been retired and its
    last entry has been popped. On the torrents that are there every operation is defined, and
    nothing but a refused `add` stops the run. -/
theorem mailbox_bounded {ops : List MailboxOp} {t : MailboxAudit}
    (hrun : Lts.exec MailboxAudit.step {} ops = some t) :
    t.trace.mailbox.jobs_.keys.card ≤ 256 ∧
    (∀ id job, t.trace.mailbox.jobs_.lookup id = some job → t.JobInBounds id job) ∧
    t.trace.mailbox.critical_.length ≤ 2304 ∧
    (∀ e ∈ t.trace.mailbox.critical_, 1 ≤ e.count ∧ e.id ∈ t.trace.mailbox.jobs_) ∧
    (∀ id, t.tenure id ≠ .never → (id ∉ t.trace.mailbox.jobs_ ↔
      t.tenure id = .retired ∧ entriesOf id t.trace.mailbox.critical_ = [])) ∧
    (∀ id, id ∈ t.trace.mailbox.jobs_ → ∀ alloc kind json,
      (∃ m, t.trace.mailbox.critical alloc id kind json = .ok m) ∧
      ∃ m, t.trace.mailbox.status id json = .ok m) ∧
    (∀ order, ∃ m, t.trace.mailbox.pop order = .ok m) ∧
    ∀ op, t.step op = none → ∃ id, op = .add id ∧ t.trace.mailbox.canAdd id = false := by
  have h := run_bounded hrun
  refine ⟨h.capacity, fun id job hj => ?_, h.critical_length,
    fun e he => ⟨h.wellFormed.countPos e he, h.wellFormed.present e he⟩, fun id hadded => ?_,
    fun id hid alloc kind json => ?_, fun order => h.wellFormed.pop_defined order, fun op hs => ?_⟩
  · have hjob := h.jobs id job hj
    refine ⟨h.wellFormed.pending id job hj, hjob.pending_le, fun p hp => ?_, hjob.quiet⟩
    obtain ⟨init, e, hentries, hep, hderef⟩ := h.wellFormed.deref hj hp
    exact ⟨init, e, hentries, hep, hderef, hjob.errorEntry p hp⟩
  · rw [← Finmap.lookup_eq_none]
    constructor
    · intro hnone
      have hleft := h.left id hnone
      refine ⟨?_, h.wellFormed.entriesOf_eq_nil hnone⟩
      cases htenure : t.tenure id with
      | never => exact absurd htenure hadded
      | current => exact absurd htenure hleft
      | retired => rfl
    · rintro ⟨hretired, hempty⟩
      by_contra hsome
      obtain ⟨job, hj⟩ := Option.ne_none_iff_exists'.mp hsome
      have hjob := h.jobs id job hj
      have hflag : job.retired = true := by
        by_contra hflag
        have htenure := hjob.tenure
        rw [hretired, if_neg hflag] at htenure
        cases htenure
      have hpos := (hjob.quiet hflag).1
      rw [h.wellFormed.pending id job hj, hempty] at hpos
      cases hpos
  · obtain ⟨job, hj⟩ := Finmap.mem_iff.mp hid
    constructor
    · have hdefined := h.wellFormed.critical_defined alloc id kind json
      cases hc : t.trace.mailbox.critical alloc id kind json with
      | ok m => exact ⟨m, rfl⟩
      | error fault =>
          cases fault with
          | undefinedBehaviour => exact absurd hc hdefined
          | outOfRange => exact absurd hc (critical_of_lookup hj)
    · simp only [EventMailbox.status, hj]
      split
      · exact ⟨_, rfl⟩
      · exact ⟨_, rfl⟩
  · exact MailboxTrace.step_eq_none h.wellFormed (Option.map_eq_none_iff.mp hs)

/-- Five error runs with the four one-shot entries between them, and nobody reads. -/
def fullRun : List MailboxOp :=
  [.add "a", .critical bumpAllocator "a" .error "e", .critical bumpAllocator "a" .metadata "m",
    .critical bumpAllocator "a" .error "e", .critical bumpAllocator "a" .completed "c",
    .critical bumpAllocator "a" .error "e", .critical bumpAllocator "a" .stopped "s",
    .critical bumpAllocator "a" .error "e", .critical bumpAllocator "a" .invalidSelection "i",
    .critical bumpAllocator "a" .error "e", .critical bumpAllocator "a" .error "e"]

theorem fullRun_bounded : ∃ t job, Lts.exec MailboxAudit.step {} fullRun = some t ∧
    t.trace.mailbox.jobs_.lookup "a" = some job ∧ job.pending = 9 ∧ t.JobInBounds "a" job := by
  have hpending : ((Lts.exec MailboxAudit.step {} fullRun).bind fun t =>
      (t.trace.mailbox.jobs_.lookup "a").map EventMailbox.Job.pending) = some 9 := by
    decide +kernel
  obtain ⟨t, ht, hjob⟩ := Option.bind_eq_some_iff.mp hpending
  obtain ⟨job, hj, hnine⟩ := Option.map_eq_some_iff.mp hjob
  exact ⟨t, job, ht, hj, hnine, (mailbox_bounded ht).2.1 "a" job hj⟩

end MailboxAudit

end LibtorrentKit
