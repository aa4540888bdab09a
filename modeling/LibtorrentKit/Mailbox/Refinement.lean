/-
  The event mailbox refines a per-torrent FIFO.

  `Refines` relates a mailbox to a state of `KeyedFifo`: the queue of a torrent is its
  entries, each expanded by its count, and the bits of `delivered_or_pending` are the
  one-shot kinds seen. `add` begins the life of a torrent, `critical` submits to it, `pop`
  takes from it, and `retire` and `status` are invisible. `critical` refines a submission
  as long as an error is merged only into a run with the same payload (`asserted`), which
  is what the assertion in the source says.
-/
import LibtorrentKit.Mailbox.WellFormed
import LibtorrentKit.Lib.KeyedFifo

namespace LibtorrentKit

open Finmap (lookup_insert lookup_insert_of_ne lookup_erase lookup_erase_ne)

/-- What the outside sees of the mailbox: a torrent admitted, a payload submitted, a
    critical payload read. -/
abbrev MailEvent := KeyedFifo.Op String Kind String

namespace EventMailbox

/-! ## What is queued -/

section

variable {m m' : EventMailbox} {id i json : String} {kind : Kind} {alloc : Allocator} {job : Job}

theorem queued_pushCritical (m : EventMailbox) (alloc : Allocator) (id : String) (kind : Kind)
    (json : String) (job : Job) (i : String) :
    (pushCritical alloc m id kind json job).queued i =
      m.queued i ++ if i = id then [json] else [] := by
  simp only [queued, EventMailbox.pushCritical, entriesOf_append, List.flatMap_append]
  by_cases hi : i = id
  · simp [hi, entriesOf, Entry.expand]
  · simp [hi, entriesOf, Ne.symm hi]

/-- A run of one torrent gets longer: nothing changes for the others. -/
theorem WellFormed.queued_bump_of_ne (h : m.WellFormed) {p : Addr}
    (hj : m.jobs_.lookup id = some job) (hp : job.lastError = some p) (hi : i ≠ id) :
    queued { m with critical_ := m.critical_.map (EventMailbox.bump p) } i = m.queued i := by
  obtain ⟨init, e, hrun, hep, -⟩ := h.deref hj hp
  obtain ⟨he, heid⟩ := mem_entriesOf.mp (by simp [hrun] : e ∈ entriesOf id m.critical_)
  have hother : (entriesOf i m.critical_).map (EventMailbox.bump p) = entriesOf i m.critical_ := by
    refine map_bump_of_ne fun x hx hxp => hi ?_
    obtain ⟨hx, hxi⟩ := mem_entriesOf.mp hx
    have hxe := eq_of_addr_eq h.addrs hx he (hxp.trans hep.symm)
    rw [← hxi, hxe, heid]
  simp only [queued, entriesOf_map_bump, hother]

theorem WellFormed.queued_critical_of_ne (h : m.WellFormed)
    (hc : m.critical alloc id kind json = .ok m') (hi : i ≠ id) : m'.queued i = m.queued i := by
  unfold EventMailbox.critical at hc
  split at hc
  · cases hc
  · next job hj =>
      split at hc
      · split at hc
        · next p hp =>
            split at hc
            · cases hc
            · obtain rfl := Except.ok.inj hc
              exact h.queued_bump_of_ne hj hp hi
        · obtain rfl := Except.ok.inj hc
          rw [queued_pushCritical, if_neg hi, List.append_nil]
      · split at hc
        · obtain rfl := Except.ok.inj hc
          rfl
        · obtain rfl := Except.ok.inj hc
          rw [queued_pushCritical, if_neg hi, List.append_nil]

theorem queued_cons {e : Entry} {rest : List Entry} (hm : m.critical_ = e :: rest) (i : String) :
    m.queued i =
      (if e.id = i then e.expand else []) ++ (entriesOf i rest).flatMap Entry.expand := by
  by_cases hi : e.id = i
  · subst hi
    rw [queued, hm, entriesOf_cons_self, List.flatMap_cons, if_pos rfl]
  · rw [queued, hm, entriesOf_cons_ne hi, if_neg hi, List.nil_append]

/-- `pop` takes one occurrence of the first entry. -/
theorem pop_queued {order : List String} {e : Entry} {rest : List Entry}
    (hm : m.critical_ = e :: rest) (hc : m.pop order = .ok m') (i : String) :
    m.queued i = (if e.id = i then [e.json] else []) ++ m'.queued i := by
  have htake : ∀ n, e.count = n + 1 → m.queued i = (if e.id = i then [e.json] else []) ++
      queued { m with critical_ := { e with count := n } :: rest } i := by
    intro n hn
    rw [queued_cons hm,
      queued_cons (m := { m with critical_ := { e with count := n } :: rest }) rfl]
    by_cases hi : e.id = i <;> simp [hi, Entry.expand, hn, List.replicate_succ]
  unfold EventMailbox.pop at hc
  simp only [hm] at hc
  split at hc
  · cases hc
  · next hcount =>
      split at hc
      · cases hc
      · split at hc
        · cases hc
        · obtain rfl := Except.ok.inj hc
          have hspent : (Entry.mk e.addr e.id e.json 0).expand = [] := rfl
          rw [htake 0 hcount, queued_cons rfl, hspent, ite_self, List.nil_append]
          rfl
  · next n hcount =>
      obtain rfl := Except.ok.inj hc
      exact htake (n + 1) hcount

theorem pop_queued_nil {order : List String} (hm : m.critical_ = []) (hc : m.pop order = .ok m')
    (i : String) : m'.queued i = m.queued i := by
  unfold EventMailbox.pop at hc
  simp only [hm] at hc
  split at hc
  · obtain rfl := Except.ok.inj hc
    rfl
  · split at hc
    · obtain rfl := Except.ok.inj hc
      rfl
    · obtain rfl := Except.ok.inj hc
      simp only [queued, hm]

theorem status_queued (hc : m.status id json = .ok m') (i : String) :
    m'.queued i = m.queued i := by
  unfold EventMailbox.status at hc
  split at hc
  · cases hc
  · split at hc <;> obtain rfl := Except.ok.inj hc <;> rfl

theorem queued_add (m : EventMailbox) (id i : String) : (m.add id).queued i = m.queued i := by
  unfold EventMailbox.add
  split <;> rfl

theorem queued_retire (m : EventMailbox) (id i : String) : (m.retire id).queued i = m.queued i := by
  unfold EventMailbox.retire
  split
  · rfl
  · split <;> rfl

end

/-! ## Refinement -/

/-- What a queue of torrents holds: the abstract state the mailbox refines. -/
abbrev Fifo := KeyedFifo.State String Kind String

/-- The mailbox holds exactly the queues of `f`, and remembers its one-shot kinds. -/
structure Refines (m : EventMailbox) (f : Fifo) : Prop where
  queue : ∀ id, f.queue id = m.queued id
  seen : ∀ id job, m.jobs_.lookup id = some job → ∀ k,
    k ∈ job.deliveredOrPending ↔ KeyedFifo.dropped Kind.oneShot (f.seen id) k = true

theorem Refines.empty : Refines {} KeyedFifo.State.empty where
  queue := fun _ => rfl
  seen := by simp

/-- Only the record of `id` changes, and not the kinds it remembers. -/
theorem Refines.setJob {m : EventMailbox} {f : Fifo} (h : Refines m f) {id : String}
    {job job' : Job} (hj : m.jobs_.lookup id = some job)
    (hk : job'.deliveredOrPending = job.deliveredOrPending) :
    Refines { m with jobs_ := m.jobs_.insert id job' } f where
  queue := h.queue
  seen := by
    intro i j hi k
    by_cases hid : i = id
    · subst hid
      obtain rfl : job' = j := by simpa using hi
      rw [hk]
      exact h.seen i job hj k
    · exact h.seen i j (by rwa [lookup_insert_of_ne _ hid] at hi) k

theorem Refines.eraseJob {m : EventMailbox} {f : Fifo} (h : Refines m f) (id : String) :
    Refines { m with jobs_ := m.jobs_.erase id } f where
  queue := h.queue
  seen := by
    intro i j hi k
    by_cases hid : i = id
    · subst hid
      simp at hi
    · exact h.seen i j (by rwa [lookup_erase_ne hid] at hi) k

theorem Refines.add {m : EventMailbox} {f : Fifo} (h : Refines m f) (hwf : WellFormed m)
    {id : String} (hid : id ∉ m.jobs_) :
    ∃ f', KeyedFifo.step Kind.oneShot f (.begin id) = some f' ∧ Refines (m.add id) f' := by
  have hq : f.queue id = [] := by
    rw [h.queue, queued, hwf.entriesOf_eq_nil (Finmap.lookup_eq_none.mpr hid)]
    rfl
  refine ⟨_, KeyedFifo.step_begin hq, ?_⟩
  unfold EventMailbox.add
  rw [if_neg hid]
  refine ⟨h.queue, ?_⟩
  intro i j hi k
  by_cases hii : i = id
  · subst hii
    obtain rfl : ({} : Job) = j := by simpa using hi
    simp [KeyedFifo.dropped]
  · rw [lookup_insert_of_ne _ hii] at hi
    simpa [Function.update_of_ne hii] using h.seen i j hi k

theorem Refines.retire {m : EventMailbox} {f : Fifo} (h : Refines m f) (id : String) :
    Refines (m.retire id) f := by
  unfold EventMailbox.retire
  split
  · exact h
  · next job hj =>
      split
      · exact h.eraseJob id
      · exact h.setJob hj rfl

theorem Refines.status {m m' : EventMailbox} {f : Fifo} (h : Refines m f) {id json : String}
    (hc : m.status id json = .ok m') : Refines m' f := by
  unfold EventMailbox.status at hc
  split at hc
  · cases hc
  · next job hj =>
      split at hc
      · obtain rfl := Except.ok.inj hc
        exact h
      · obtain rfl := Except.ok.inj hc
        exact h.setJob hj rfl

/-- A payload that is not dropped goes to the end of its torrent's queue. -/
theorem Refines.pushCritical {m : EventMailbox} {f : Fifo} (h : Refines m f) (alloc : Allocator)
    {id : String} {kind : Kind} (json : String) {job : Job}
    (hd : ¬ KeyedFifo.dropped Kind.oneShot (f.seen id) kind)
    (hk : ∀ k, k ∈ job.deliveredOrPending ↔
      KeyedFifo.dropped Kind.oneShot (f.seen id ++ [kind]) k = true) :
    ∃ f', KeyedFifo.step Kind.oneShot f (.submit id kind json) = some f' ∧
      Refines (pushCritical alloc m id kind json job) f' := by
  refine ⟨_, KeyedFifo.step_submit _ hd, ?_⟩
  refine ⟨?_, ?_⟩
  · intro i
    rw [queued_pushCritical]
    by_cases hi : i = id
    · subst hi
      simp [h.queue]
    · simp [h.queue, hi]
  · intro i j hij k
    simp only [EventMailbox.pushCritical] at hij
    by_cases hi : i = id
    · subst hi
      rw [lookup_insert, Option.some.injEq] at hij
      subst hij
      simpa using hk k
    · rw [lookup_insert_of_ne _ hi] at hij
      simpa [Function.update_of_ne hi] using h.seen i j hij k

/-- An error merged into the run of its torrent that `last_error` designates: that run is
    the last entry, so the occurrence lands at the end of the torrent's queue. -/
theorem Refines.merge {m : EventMailbox} {f : Fifo} (h : Refines m f) (hwf : WellFormed m)
    {id json : String} {job : Job} {p : Addr} (hj : m.jobs_.lookup id = some job)
    (hp : job.lastError = some p) (hjson : ∀ e, m.deref p = some e → e.json = json) :
    ∃ f', KeyedFifo.step Kind.oneShot f (.submit id .error json) = some f' ∧
      Refines { m with critical_ := m.critical_.map (bump p) } f' := by
  have hd : ¬ KeyedFifo.dropped Kind.oneShot (f.seen id) .error := by
    simp [KeyedFifo.dropped, Kind.oneShot]
  refine ⟨_, KeyedFifo.step_submit _ hd, ?_⟩
  obtain ⟨init, e, hrun, hep, hde⟩ := hwf.deref hj hp
  have hnd : ((entriesOf id m.critical_).map Entry.addr).Nodup :=
    (List.Sublist.map _ List.filter_sublist).nodup hwf.addrs
  refine ⟨?_, ?_⟩
  · intro i
    dsimp only
    by_cases hi : i = id
    · subst hi
      have hinit : init.map (bump p) = init := by
        refine map_bump_of_ne fun x hx hxp => ?_
        rw [hrun, List.map_append, List.nodup_append] at hnd
        exact hnd.2.2 x.addr (List.mem_map_of_mem hx) e.addr (by simp) (hxp.trans hep.symm)
      simp only [queued, entriesOf_map_bump]
      rw [Function.update_self, h.queue, queued, hrun, List.map_append, hinit, List.map_singleton,
        ← hep, List.flatMap_append, List.flatMap_append, List.flatMap_singleton,
        List.flatMap_singleton, expand_bump_self, ← hjson e hde, List.append_assoc]
    · rw [Function.update_of_ne hi, h.queue, hwf.queued_bump_of_ne hj hp hi]
  · intro i j hij k
    dsimp only
    by_cases hi : i = id
    · subst hi
      have := h.seen i j hij k
      rw [Function.update_self, KeyedFifo.dropped_append]
      cases k <;> simpa [KeyedFifo.dropped, Kind.oneShot] using this
    · rw [Function.update_of_ne hi]
      exact h.seen i j hij k

/-- `critical` submits its payload to the abstract queue of the torrent, if an error is
    only merged into a run with the same payload. -/
theorem Refines.critical {m m' : EventMailbox} {f : Fifo} (h : Refines m f) (hwf : WellFormed m)
    {alloc : Allocator} {id : String} {kind : Kind} {json : String}
    (ha : m.asserted id kind json) (hc : m.critical alloc id kind json = .ok m') :
    ∃ f', KeyedFifo.step Kind.oneShot f (.submit id kind json) = some f' ∧ Refines m' f' := by
  unfold EventMailbox.critical at hc
  split at hc
  · cases hc
  · next job hj =>
      have hseen := h.seen id job hj
      split at hc
      · next hk =>
          subst hk
          split at hc
          · next p hp =>
              have hjson : ∀ e, m.deref p = some e → e.json = json := by
                intro e he
                exact ha rfl e (by simp [unreadError, hj, hp, he])
              obtain ⟨_, e, _, _, hde⟩ := hwf.deref hj hp
              simp only [hde, Except.ok.injEq] at hc
              subst hc
              exact h.merge hwf hj hp hjson
          · obtain rfl := Except.ok.inj hc
            refine h.pushCritical alloc json (by simp [KeyedFifo.dropped, Kind.oneShot]) ?_
            intro k
            rw [KeyedFifo.dropped_append, hseen k]
            cases k <;> simp [KeyedFifo.dropped, Kind.oneShot]
      · next hk =>
          have hone : kind.oneShot = true := by cases kind <;> first | rfl | exact absurd rfl hk
          split at hc
          · next hin =>
              obtain rfl := Except.ok.inj hc
              exact ⟨f, KeyedFifo.step_submit_dropped _ ((hseen kind).mp hin), h⟩
          · next hin =>
              obtain rfl := Except.ok.inj hc
              refine h.pushCritical alloc json (fun hd => hin ((hseen kind).mpr hd)) ?_
              intro k
              rw [KeyedFifo.dropped_append, Bool.or_eq_true, ← hseen k, Finset.mem_insert]
              by_cases hkk : k = kind
              · subst hkk
                simp [KeyedFifo.dropped, hone]
              · simp [KeyedFifo.dropped, hkk]

/-- `pop` with a critical event queued takes one occurrence from its torrent's queue. -/
theorem Refines.pop_critical {m m' : EventMailbox} {f : Fifo} (h : Refines m f)
    {order : List String} {e : Entry} {rest : List Entry}
    (hm : m.critical_ = e :: rest) (hc : m.pop order = .ok m') :
    ∃ f', KeyedFifo.step Kind.oneShot f (.take e.id e.json) = some f' ∧ Refines m' f' := by
  have hq : f.queue e.id = e.json :: m'.queued e.id := by
    rw [h.queue, pop_queued hm hc, if_pos rfl, List.singleton_append]
  refine ⟨_, KeyedFifo.step_take hq, fun i => ?_, ?_⟩
  · dsimp only
    by_cases hi : i = e.id
    · rw [hi, Function.update_self]
    · rw [Function.update_of_ne hi, h.queue, pop_queued hm hc, if_neg (Ne.symm hi),
        List.nil_append]
  unfold EventMailbox.pop at hc
  simp only [hm] at hc
  split at hc
  · cases hc
  · split at hc
    · cases hc
    · next job hj =>
        split at hc
        · cases hc
        · obtain rfl := Except.ok.inj hc
          have hseen := h.seen e.id job hj
          intro i j hij k
          by_cases hi : i = e.id
          · subst hi
            have hjob : j.deliveredOrPending = job.deliveredOrPending := by
              simp only [popLast] at hij
              split at hij
              · simp at hij
              · rw [lookup_insert, Option.some.injEq] at hij
                subst hij
                rfl
            rw [hjob]
            exact hseen k
          · refine h.seen i j ?_ k
            simp only [popLast] at hij
            split at hij
            · rwa [lookup_erase_ne hi] at hij
            · rwa [lookup_insert_of_ne _ hi] at hij
  · obtain rfl := Except.ok.inj hc
    exact h.seen

/-- `pop` without a critical event queued only clears a status. -/
theorem Refines.pop_status {m m' : EventMailbox} {f : Fifo} (h : Refines m f)
    {order : List String} (hm : m.critical_ = []) (hc : m.pop order = .ok m') : Refines m' f := by
  unfold EventMailbox.pop at hc
  simp only [hm] at hc
  split at hc
  · obtain rfl := Except.ok.inj hc
    exact h
  · split at hc
    · obtain rfl := Except.ok.inj hc
      exact h
    · next job hj =>
        obtain rfl := Except.ok.inj hc
        exact hm ▸ h.setJob hj rfl

end EventMailbox

end LibtorrentKit
