/-
  The invariant of the event mailbox.

  `WellFormed` ties the three representations of a torrent's backlog together: `pending`
  counts its entries in `critical_`, and `last_error`, when set, designates the last of
  them. Every operation keeps it (`WellFormed.add`, `WellFormed.critical`, …), and under it
  none has undefined behaviour (`WellFormed.critical_defined`, `WellFormed.pop_defined`).
  `ErrorRuns P` says that the payload of every unread error run satisfies `P`.
-/
import LibtorrentKit.Mailbox.EventMailbox

namespace LibtorrentKit

open Finmap (lookup_insert lookup_insert_of_ne lookup_erase lookup_erase_ne)

namespace EventMailbox

/-! ## The entries of one torrent -/

/-- The entries of `id`, in queue order. -/
def entriesOf (id : String) (l : List Entry) : List Entry := l.filter fun e => decide (e.id = id)

/-- The occurrences an entry stands for. -/
def Entry.expand (e : Entry) : List String := List.replicate e.count e.json

/-- The payloads still queued for `id`, each entry expanded by its count. -/
def queued (m : EventMailbox) (id : String) : List String :=
  (entriesOf id m.critical_).flatMap Entry.expand

@[simp] theorem entriesOf_nil (id : String) : entriesOf id [] = [] := rfl

theorem entriesOf_cons_self (e : Entry) (l : List Entry) :
    entriesOf e.id (e :: l) = e :: entriesOf e.id l := by
  simp [entriesOf]

theorem entriesOf_cons_ne {id : String} {e : Entry} (h : e.id ≠ id) (l : List Entry) :
    entriesOf id (e :: l) = entriesOf id l := by
  simp [entriesOf, h]

theorem entriesOf_append (id : String) (l l' : List Entry) :
    entriesOf id (l ++ l') = entriesOf id l ++ entriesOf id l' := by
  simp [entriesOf]

theorem mem_entriesOf {id : String} {l : List Entry} {e : Entry} :
    e ∈ entriesOf id l ↔ e ∈ l ∧ e.id = id := by
  simp [entriesOf]

@[simp] theorem bump_id (p : Addr) (e : Entry) : (bump p e).id = e.id := by
  unfold bump; split <;> rfl

@[simp] theorem bump_addr (p : Addr) (e : Entry) : (bump p e).addr = e.addr := by
  unfold bump; split <;> rfl

theorem bump_of_ne {p : Addr} {e : Entry} (h : e.addr ≠ p) : bump p e = e := if_neg h

theorem map_bump_of_ne {p : Addr} {l : List Entry} (h : ∀ e ∈ l, e.addr ≠ p) :
    l.map (bump p) = l := by
  have : l.map (bump p) = l.map id := List.map_congr_left fun e he => bump_of_ne (h e he)
  rw [this, List.map_id]

theorem entriesOf_map_bump (p : Addr) (id : String) (l : List Entry) :
    entriesOf id (l.map (bump p)) = (entriesOf id l).map (bump p) := by
  simp only [entriesOf, List.filter_map]
  congr 1
  exact List.filter_congr fun e _ => by simp

theorem expand_bump_self (e : Entry) : (bump e.addr e).expand = e.expand ++ [e.json] := by
  simp [bump, Entry.expand, List.replicate_succ']

/-- Entries of a list without repeated addresses are told apart by their address. -/
theorem eq_of_addr_eq {l : List Entry} (h : (l.map Entry.addr).Nodup) {e e' : Entry}
    (he : e ∈ l) (he' : e' ∈ l) (ha : e.addr = e'.addr) : e = e' :=
  List.inj_on_of_nodup_map h he he' ha

/-! ## Well-formedness -/

/-- The invariant that ties `critical_`, `pending` and `last_error` together. -/
structure WellFormed (m : EventMailbox) : Prop where
  present : ∀ e ∈ m.critical_, e.id ∈ m.jobs_
  countPos : ∀ e ∈ m.critical_, 0 < e.count
  addrs : (m.critical_.map Entry.addr).Nodup
  pending : ∀ id job, m.jobs_.lookup id = some job →
    job.pending = (entriesOf id m.critical_).length
  lastError : ∀ id job p, m.jobs_.lookup id = some job → job.lastError = some p →
    ∃ init e, entriesOf id m.critical_ = init ++ [e] ∧ e.addr = p

theorem WellFormed.empty : WellFormed {} where
  present := by simp
  countPos := by simp
  addrs := by simp
  pending := by simp
  lastError := by simp

/-- The pointer designates the torrent's last entry. -/
theorem WellFormed.deref {m : EventMailbox} (h : WellFormed m) {id : String} {job : Job} {p : Addr}
    (hj : m.jobs_.lookup id = some job) (hp : job.lastError = some p) :
    ∃ init e, entriesOf id m.critical_ = init ++ [e] ∧ e.addr = p ∧ m.deref p = some e := by
  obtain ⟨init, e, hrun, hep⟩ := h.lastError id job p hj hp
  have hmem : e ∈ m.critical_ := by
    have : e ∈ entriesOf id m.critical_ := by simp [hrun]
    exact (mem_entriesOf.mp this).1
  refine ⟨init, e, hrun, hep, ?_⟩
  unfold EventMailbox.deref
  cases hf : m.critical_.find? fun x => decide (x.addr = p) with
  | none =>
      have := List.find?_eq_none.mp hf e hmem
      simp [hep] at this
  | some x =>
      have hx : x.addr = p := by simpa using List.find?_some hf
      rw [eq_of_addr_eq h.addrs (List.mem_of_find?_eq_some hf) hmem (hx.trans hep.symm)]

/-- A torrent without a mailbox entry has nothing queued. -/
theorem WellFormed.entriesOf_eq_nil {m : EventMailbox} (h : WellFormed m) {id : String}
    (hid : m.jobs_.lookup id = none) : entriesOf id m.critical_ = [] := by
  rw [entriesOf, List.filter_eq_nil_iff]
  intro e he hid'
  obtain rfl : e.id = id := by simpa using hid'
  exact (Finmap.lookup_eq_none.mp hid) (h.present e he)

theorem mem_insert_of_mem {m : EventMailbox} {id i : String} {job : Job} (h : i ∈ m.jobs_) :
    i ∈ m.jobs_.insert id job :=
  Finmap.mem_insert.mpr (Or.inr h)

/-- Replacing the record of `id` keeps the invariant, if the new record fits the entries. -/
theorem WellFormed.setJob {m : EventMailbox} (h : WellFormed m) {id : String} {job : Job}
    (hp : job.pending = (entriesOf id m.critical_).length)
    (hl : ∀ p, job.lastError = some p →
      ∃ init e, entriesOf id m.critical_ = init ++ [e] ∧ e.addr = p) :
    WellFormed { m with jobs_ := m.jobs_.insert id job } where
  present := fun e he => mem_insert_of_mem (h.present e he)
  countPos := h.countPos
  addrs := h.addrs
  pending := by
    intro i j hj
    by_cases hi : i = id
    · subst hi
      obtain rfl : job = j := by simpa using hj
      exact hp
    · exact h.pending i j (by rwa [lookup_insert_of_ne _ hi] at hj)
  lastError := by
    intro i j p hj
    by_cases hi : i = id
    · subst hi
      obtain rfl : job = j := by simpa using hj
      exact hl p
    · exact h.lastError i j p (by rwa [lookup_insert_of_ne _ hi] at hj)

/-- Replacing a record by one with the same `pending` and `last_error`. -/
theorem WellFormed.setJob' {m : EventMailbox} (h : WellFormed m) {id : String} {job job' : Job}
    (hj : m.jobs_.lookup id = some job) (hp : job'.pending = job.pending)
    (hl : job'.lastError = job.lastError) :
    WellFormed { m with jobs_ := m.jobs_.insert id job' } :=
  h.setJob (hp.trans (h.pending id job hj)) fun p hp' => h.lastError id job p hj (hl ▸ hp')

theorem WellFormed.eraseJob {m : EventMailbox} (h : WellFormed m) {id : String}
    (hid : entriesOf id m.critical_ = []) : WellFormed { m with jobs_ := m.jobs_.erase id } where
  present := by
    intro e he
    rw [Finmap.mem_erase]
    refine ⟨?_, h.present e he⟩
    rintro rfl
    have : e ∈ entriesOf e.id m.critical_ := mem_entriesOf.mpr ⟨he, rfl⟩
    simp [hid] at this
  countPos := h.countPos
  addrs := h.addrs
  pending := by
    intro i j hj
    by_cases hi : i = id
    · subst hi
      simp at hj
    · exact h.pending i j (by rwa [lookup_erase_ne hi] at hj)
  lastError := by
    intro i j p hj
    by_cases hi : i = id
    · subst hi
      simp at hj
    · exact h.lastError i j p (by rwa [lookup_erase_ne hi] at hj)

theorem WellFormed.add {m : EventMailbox} (h : WellFormed m) (id : String) :
    WellFormed (m.add id) := by
  unfold EventMailbox.add
  split
  · exact h
  · next hid =>
      have hnil := h.entriesOf_eq_nil (Finmap.lookup_eq_none.mpr hid)
      exact h.setJob (by simp [hnil]) (by simp)

theorem WellFormed.retire {m : EventMailbox} (h : WellFormed m) (id : String) :
    WellFormed (m.retire id) := by
  unfold EventMailbox.retire
  split
  · exact h
  · next job hj =>
      split
      · next h0 =>
          refine h.eraseJob (List.eq_nil_of_length_eq_zero ?_)
          rw [← h.pending id job hj, h0]
      · exact h.setJob' hj rfl rfl

/-- `push_back` of a new node for `id`. -/
theorem WellFormed.pushCritical {m : EventMailbox} (h : WellFormed m) (alloc : Allocator)
    {id : String} (kind : Kind) (json : String) {job : Job}
    (hp : job.pending = (entriesOf id m.critical_).length)
    (hl : kind ≠ .error → job.lastError = none) :
    WellFormed (pushCritical alloc m id kind json job) := by
  rcases halloc : alloc (m.critical_.map Entry.addr) with ⟨node, hnode⟩
  have hent : ∀ i, entriesOf i (m.critical_ ++ [⟨node, id, json, 1⟩]) =
      entriesOf i m.critical_ ++ if id = i then [⟨node, id, json, 1⟩] else [] := by
    intro i
    rw [entriesOf_append]
    by_cases hi : id = i <;> simp [entriesOf, hi]
  simp only [EventMailbox.pushCritical, halloc]
  refine ⟨?_, ?_, ?_, ?_, ?_⟩
  · intro e he
    rcases List.mem_append.mp he with he | he
    · exact mem_insert_of_mem (h.present e he)
    · obtain rfl : e = _ := by simpa using he
      exact Finmap.mem_insert.mpr (Or.inl rfl)
  · intro e he
    rcases List.mem_append.mp he with he | he
    · exact h.countPos e he
    · obtain rfl : e = _ := by simpa using he
      exact Nat.one_pos
  · rw [List.map_append, List.nodup_append]
    refine ⟨h.addrs, by simp, ?_⟩
    intro a ha b hb hab
    obtain rfl : b = node := by simpa using hb
    exact hnode (hab ▸ ha)
  · intro i j hj
    rw [hent]
    by_cases hi : i = id
    · subst hi
      rw [lookup_insert, Option.some.injEq] at hj
      subst hj
      simp [hp]
    · rw [lookup_insert_of_ne _ hi] at hj
      simpa [Ne.symm hi] using h.pending i j hj
  · intro i j p hj hjp
    rw [hent]
    by_cases hi : i = id
    · subst hi
      rw [lookup_insert, Option.some.injEq] at hj
      subst hj
      by_cases hk : kind = .error
      · simp only [hk, if_true, Option.some.injEq] at hjp
        exact ⟨_, _, by rw [if_pos rfl], hjp⟩
      · simp [hk, hl hk] at hjp
    · rw [lookup_insert_of_ne _ hi] at hj
      simpa [Ne.symm hi] using h.lastError i j p hj hjp

/-- `++p->count` on a live entry. -/
theorem WellFormed.bump {m : EventMailbox} (h : WellFormed m) (p : Addr) :
    WellFormed { m with critical_ := m.critical_.map (bump p) } where
  present := by
    intro e he
    obtain ⟨x, hx, rfl⟩ := List.mem_map.mp he
    simpa using h.present x hx
  countPos := by
    intro e he
    obtain ⟨x, hx, rfl⟩ := List.mem_map.mp he
    have := h.countPos x hx
    unfold EventMailbox.bump
    split <;> simp [this]
  addrs := by
    have : (m.critical_.map (EventMailbox.bump p)).map Entry.addr = m.critical_.map Entry.addr := by
      simp [Function.comp_def]
    rw [this]
    exact h.addrs
  pending := by
    intro id job hj
    rw [entriesOf_map_bump, List.length_map]
    exact h.pending id job hj
  lastError := by
    intro id job q hj hq
    obtain ⟨init, e, hrun, heq⟩ := h.lastError id job q hj hq
    refine ⟨init.map (EventMailbox.bump p), EventMailbox.bump p e, ?_, by simpa using heq⟩
    rw [entriesOf_map_bump, hrun, List.map_append, List.map_singleton]

theorem WellFormed.critical {m m' : EventMailbox} (h : WellFormed m) {alloc : Allocator}
    {id : String} {kind : Kind} {json : String} (hc : m.critical alloc id kind json = .ok m') :
    WellFormed m' := by
  unfold EventMailbox.critical at hc
  split at hc
  · cases hc
  · next job hj =>
      have hp := h.pending id job hj
      split at hc
      · next hk =>
          split at hc
          · next p hlast =>
              obtain ⟨init, e, hrun, hep, hd⟩ := h.deref hj hlast
              simp only [hd, Except.ok.injEq] at hc
              subst hc
              exact h.bump p
          · obtain rfl := Except.ok.inj hc
            exact h.pushCritical alloc kind json hp (fun hne => absurd hk hne)
      · split at hc
        · obtain rfl := Except.ok.inj hc
          exact h
        · obtain rfl := Except.ok.inj hc
          exact h.pushCritical alloc kind json hp (fun _ => rfl)

theorem WellFormed.status {m m' : EventMailbox} (h : WellFormed m) {id json : String}
    (hc : m.status id json = .ok m') : WellFormed m' := by
  unfold EventMailbox.status at hc
  split at hc
  · cases hc
  · next job hj =>
      split at hc
      · obtain rfl := Except.ok.inj hc
        exact h
      · obtain rfl := Except.ok.inj hc
        exact h.setJob' hj rfl rfl

/-- Taking one occurrence off the head entry, when more remain. -/
theorem WellFormed.decrement {m : EventMailbox} (h : WellFormed m) {e : Entry} {rest : List Entry}
    {n : Nat} (hm : m.critical_ = e :: rest) :
    WellFormed { m with critical_ := { e with count := n + 1 } :: rest } := by
  have hlen : ∀ i, ∃ f : Entry → Entry, (∀ x, (f x).addr = x.addr) ∧
      entriesOf i ({ e with count := n + 1 } :: rest) = (entriesOf i m.critical_).map f := by
    intro i
    refine ⟨fun x => if x.addr = e.addr then { e with count := n + 1 } else x, ?_, ?_⟩
    · intro x
      dsimp only
      split
      · next hx => exact hx.symm
      · rfl
    · have hne : ∀ x ∈ rest, x.addr ≠ e.addr := by
        have := h.addrs
        rw [hm, List.map_cons, List.nodup_cons] at this
        intro x hx hxe
        exact this.1 (hxe ▸ List.mem_map_of_mem hx)
      have hrest : (entriesOf i rest).map
          (fun x => if x.addr = e.addr then { e with count := n + 1 } else x) = entriesOf i rest := by
        conv_rhs => rw [← List.map_id (entriesOf i rest)]
        refine List.map_congr_left fun x hx => ?_
        rw [if_neg (hne x (mem_entriesOf.mp hx).1)]
        rfl
      rw [hm]
      by_cases hi : e.id = i
      · simp [entriesOf, hi] at hrest ⊢
        exact hrest.symm
      · rw [entriesOf_cons_ne hi, entriesOf_cons_ne (by exact hi), hrest]
  refine ⟨?_, ?_, ?_, ?_, ?_⟩
  · intro x hx
    rcases List.mem_cons.mp hx with rfl | hx
    · exact h.present e (by simp [hm])
    · exact h.present x (by simp [hm, hx])
  · intro x hx
    rcases List.mem_cons.mp hx with rfl | hx
    · exact Nat.succ_pos n
    · exact h.countPos x (by simp [hm, hx])
  · simpa [hm] using h.addrs
  · intro i j hj
    obtain ⟨f, _, hf⟩ := hlen i
    rw [hf, List.length_map]
    exact h.pending i j hj
  · intro i j p hj hp
    obtain ⟨f, hf, hfe⟩ := hlen i
    obtain ⟨init, x, hrun, hx⟩ := h.lastError i j p hj hp
    exact ⟨init.map f, f x, by rw [hfe, hrun, List.map_append, List.map_singleton], by rw [hf, hx]⟩

/-- The head entry is used up: its node goes, and with it the pointer if it was there. -/
theorem WellFormed.popLast {m : EventMailbox} (h : WellFormed m) {e : Entry} {rest : List Entry}
    {job : Job} (hm : m.critical_ = e :: rest) (hj : m.jobs_.lookup e.id = some job) :
    WellFormed (popLast m e rest job) := by
  have hpend := h.pending e.id job hj
  rw [hm, entriesOf_cons_self, List.length_cons] at hpend
  have hnodup := h.addrs
  rw [hm, List.map_cons, List.nodup_cons] at hnodup
  -- without the head the other records still fit, so the mailbox with the old map is well-formed
  -- everywhere but at `e.id`
  have hother : ∀ i j, i ≠ e.id → m.jobs_.lookup i = some j →
      j.pending = (entriesOf i rest).length ∧ ∀ p, j.lastError = some p →
        ∃ init x, entriesOf i rest = init ++ [x] ∧ x.addr = p := by
    intro i j hi hj'
    have h1 := h.pending i j hj'
    have h2 := h.lastError i j
    rw [hm, entriesOf_cons_ne (Ne.symm hi)] at h1 h2
    exact ⟨h1, fun p hp => h2 p hj' hp⟩
  have hself : ∀ p, (if job.lastError = some e.addr then none else job.lastError) = some p →
      ∃ init x, entriesOf e.id rest = init ++ [x] ∧ x.addr = p := by
    intro p hp
    split at hp
    · cases hp
    · next hne =>
        obtain ⟨init, x, hrun, hx⟩ := h.lastError e.id job p hj hp
        rw [hm, entriesOf_cons_self] at hrun
        cases init with
        | nil =>
            obtain ⟨rfl, _⟩ := List.cons.inj hrun
            exact absurd (hx ▸ hp) hne
        | cons y init => exact ⟨init, x, (List.cons.inj hrun).2, hx⟩
  have hpresent : ∀ x ∈ rest, x.id ∈ m.jobs_ := fun x hx => h.present x (by simp [hm, hx])
  have hcount : ∀ x ∈ rest, 0 < x.count := fun x hx => h.countPos x (by simp [hm, hx])
  unfold EventMailbox.popLast
  dsimp only
  split
  · next hret =>
      have hnil : entriesOf e.id rest = [] :=
        List.eq_nil_of_length_eq_zero (by have := hret.2; omega)
      refine ⟨?_, hcount, hnodup.2, ?_, ?_⟩
      · intro x hx
        rw [Finmap.mem_erase]
        refine ⟨fun hxe => ?_, hpresent x hx⟩
        have : x ∈ entriesOf e.id rest := mem_entriesOf.mpr ⟨hx, hxe⟩
        simp [hnil] at this
      · intro i j hj'
        by_cases hi : i = e.id
        · subst hi
          simp at hj'
        · exact (hother i j hi (by rwa [lookup_erase_ne hi] at hj')).1
      · intro i j p hj'
        by_cases hi : i = e.id
        · subst hi
          simp at hj'
        · exact (hother i j hi (by rwa [lookup_erase_ne hi] at hj')).2 p
  · refine ⟨fun x hx => mem_insert_of_mem (hpresent x hx), hcount, hnodup.2, ?_, ?_⟩
    · intro i j hj'
      by_cases hi : i = e.id
      · subst hi
        rw [lookup_insert, Option.some.injEq] at hj'
        subst hj'
        dsimp only
        omega
      · exact (hother i j hi (by rwa [lookup_insert_of_ne _ hi] at hj')).1
    · intro i j p hj'
      by_cases hi : i = e.id
      · subst hi
        rw [lookup_insert, Option.some.injEq] at hj'
        subst hj'
        exact hself p
      · exact (hother i j hi (by rwa [lookup_insert_of_ne _ hi] at hj')).2 p

theorem WellFormed.pop {m m' : EventMailbox} (h : WellFormed m) {order : List String}
    (hc : m.pop order = .ok m') : WellFormed m' := by
  unfold EventMailbox.pop at hc
  split at hc
  · next e rest hm =>
      split at hc
      · cases hc
      · split at hc
        · cases hc
        · next job hj =>
            split at hc
            · cases hc
            · obtain rfl := Except.ok.inj hc
              exact h.popLast hm hj
      · obtain rfl := Except.ok.inj hc
        exact h.decrement hm
  · split at hc
    · obtain rfl := Except.ok.inj hc
      exact h
    · split at hc
      · obtain rfl := Except.ok.inj hc
        exact h
      · next job hj =>
          obtain rfl := Except.ok.inj hc
          exact h.setJob' hj rfl rfl

/-! ## No operation has undefined behaviour -/

theorem WellFormed.critical_defined {m : EventMailbox} (h : WellFormed m) (alloc : Allocator)
    (id : String) (kind : Kind) (json : String) :
    m.critical alloc id kind json ≠ .error .undefinedBehaviour := by
  unfold EventMailbox.critical
  split
  · simp
  · next job hj =>
      split
      · split
        · next p hp =>
            obtain ⟨_, e, _, _, hd⟩ := h.deref hj hp
            simp [hd]
        · simp
      · split <;> simp

theorem WellFormed.pop_defined {m : EventMailbox} (h : WellFormed m) (order : List String) :
    ∃ m', m.pop order = .ok m' := by
  unfold EventMailbox.pop
  split
  · next e rest hm =>
      have hmem : e ∈ m.critical_ := by simp [hm]
      obtain ⟨job, hj⟩ := Finmap.mem_iff.mp (h.present e hmem)
      have hpend := h.pending e.id job hj
      rw [hm, entriesOf_cons_self, List.length_cons] at hpend
      split
      · next h0 => exact absurd (h.countPos e hmem) (by omega)
      · simp only [hj]
        rw [if_neg (by omega)]
        exact ⟨_, rfl⟩
      · exact ⟨_, rfl⟩
  · split
    · exact ⟨_, rfl⟩
    · split <;> exact ⟨_, rfl⟩

/-! ## The payloads of unread error runs -/

/-- Every run that a `last_error` designates carries a payload that satisfies `P`. -/
def ErrorRuns (P : String → String → Prop) (m : EventMailbox) : Prop :=
  ∀ id job p e, m.jobs_.lookup id = some job → job.lastError = some p → e ∈ m.critical_ →
    e.addr = p → P id e.json

theorem ErrorRuns.unreadError {P : String → String → Prop} {m : EventMailbox}
    (h : ErrorRuns P m) {id : String} {run : Entry} (hr : m.unreadError id = some run) :
    P id run.json := by
  unfold EventMailbox.unreadError at hr
  rw [Option.bind_eq_some_iff] at hr
  obtain ⟨job, hj, hr⟩ := hr
  rw [Option.bind_eq_some_iff] at hr
  obtain ⟨p, hp, hr⟩ := hr
  exact h id job p run hj hp (List.mem_of_find?_eq_some hr) (by simpa using List.find?_some hr)

theorem ErrorRuns.mono {P Q : String → String → Prop} {m : EventMailbox} (h : ErrorRuns P m)
    (hPQ : ∀ id json, P id json → Q id json) : ErrorRuns Q m :=
  fun id job p e hj hp he ha => hPQ id e.json (h id job p e hj hp he ha)

/-- Only the record of `id` changes, and it gets no new pointer. -/
theorem ErrorRuns.setJob {P : String → String → Prop} {m : EventMailbox} (h : ErrorRuns P m)
    {id : String} {job' : Job}
    (hl : ∀ p, job'.lastError = some p →
      ∃ job, m.jobs_.lookup id = some job ∧ job.lastError = some p) :
    ErrorRuns P { m with jobs_ := m.jobs_.insert id job' } := by
  intro i j p e hij hp he ha
  by_cases hi : i = id
  · subst hi
    obtain rfl : job' = j := by simpa using hij
    obtain ⟨job, hj, hp'⟩ := hl p hp
    exact h i job p e hj hp' he ha
  · exact h i j p e (by rwa [lookup_insert_of_ne _ hi] at hij) hp he ha

theorem ErrorRuns.eraseJob {P : String → String → Prop} {m : EventMailbox} (h : ErrorRuns P m)
    (id : String) : ErrorRuns P { m with jobs_ := m.jobs_.erase id } := by
  intro i j p e hij hp he ha
  by_cases hi : i = id
  · subst hi
    simp at hij
  · exact h i j p e (by rwa [lookup_erase_ne hi] at hij) hp he ha

/-- Entries may go, and their counts may change. -/
theorem ErrorRuns.setCritical {P : String → String → Prop} {m : EventMailbox} (h : ErrorRuns P m)
    {l : List Entry} (hl : ∀ e ∈ l, ∃ x ∈ m.critical_, x.addr = e.addr ∧ x.json = e.json) :
    ErrorRuns P { m with critical_ := l } := by
  intro i j p e hij hp he ha
  obtain ⟨x, hx, hxa, hxj⟩ := hl e he
  rw [← hxj]
  exact h i j p x hij hp hx (hxa.trans ha)

/-- A fresh record has no pointer, so the payloads of `id` are unconstrained from here on. -/
theorem ErrorRuns.add {P : String → String → Prop} {m : EventMailbox} (h : ErrorRuns P m)
    {id : String} (hid : id ∉ m.jobs_) :
    ErrorRuns (fun i json => i ≠ id ∧ P i json) (m.add id) := by
  unfold EventMailbox.add
  rw [if_neg hid]
  intro i j p e hij hp he ha
  by_cases hi : i = id
  · subst hi
    obtain rfl : ({} : Job) = j := by simpa using hij
    simp at hp
  · exact ⟨hi, h i j p e (by rwa [lookup_insert_of_ne _ hi] at hij) hp he ha⟩

theorem ErrorRuns.retire {P : String → String → Prop} {m : EventMailbox} (h : ErrorRuns P m)
    (id : String) : ErrorRuns P (m.retire id) := by
  unfold EventMailbox.retire
  split
  · exact h
  · next job hj =>
      split
      · exact h.eraseJob id
      · exact h.setJob fun p hp => ⟨job, hj, hp⟩

theorem ErrorRuns.status {P : String → String → Prop} {m m' : EventMailbox} (h : ErrorRuns P m)
    {id json : String} (hc : m.status id json = .ok m') : ErrorRuns P m' := by
  unfold EventMailbox.status at hc
  split at hc
  · cases hc
  · next job hj =>
      split at hc
      · obtain rfl := Except.ok.inj hc
        exact h
      · obtain rfl := Except.ok.inj hc
        exact h.setJob fun p hp => ⟨job, hj, hp⟩

theorem ErrorRuns.pushCritical {P : String → String → Prop} {m : EventMailbox}
    (h : ErrorRuns P m) (hwf : WellFormed m) (alloc : Allocator) {id : String} {kind : Kind}
    (json : String) {job : Job} (hl : job.lastError = none) :
    ErrorRuns (fun i j => P i j ∨ (i = id ∧ kind = .error ∧ j = json))
      (pushCritical alloc m id kind json job) := by
  rcases halloc : alloc (m.critical_.map Entry.addr) with ⟨node, hnode⟩
  simp only [EventMailbox.pushCritical, halloc]
  intro i j p e hij hp he ha
  rcases List.mem_append.mp he with he | he
  · -- an old entry: it is not at the new node
    have hpn : p ≠ node := fun hpn => hnode (hpn ▸ ha ▸ List.mem_map_of_mem he)
    left
    by_cases hi : i = id
    · subst hi
      rw [lookup_insert, Option.some.injEq] at hij
      subst hij
      dsimp only at hp
      split at hp
      · exact absurd (Option.some.inj hp).symm hpn
      · simp [hl] at hp
    · exact h i j p e (by rwa [lookup_insert_of_ne _ hi] at hij) hp he ha
  · obtain rfl : e = ⟨node, id, json, 1⟩ := by simpa using he
    subst ha
    by_cases hi : i = id
    · subst hi
      rw [lookup_insert, Option.some.injEq] at hij
      subst hij
      dsimp only at hp
      split at hp
      · next hk => exact Or.inr ⟨rfl, hk, rfl⟩
      · simp [hl] at hp
    · -- another torrent's pointer designates an old entry
      rw [lookup_insert_of_ne _ hi] at hij
      obtain ⟨init, x, hrun, hx⟩ := hwf.lastError i j _ hij hp
      have hmem := (mem_entriesOf.mp (by simp [hrun] : x ∈ entriesOf i m.critical_)).1
      have hxn : x.addr = node := hx
      exact absurd (hxn ▸ List.mem_map_of_mem hmem) hnode

theorem ErrorRuns.critical {P : String → String → Prop} {m m' : EventMailbox}
    (h : ErrorRuns P m) (hwf : WellFormed m) {alloc : Allocator} {id : String} {kind : Kind}
    {json : String} (hc : m.critical alloc id kind json = .ok m') :
    ErrorRuns (fun i j => P i j ∨ (i = id ∧ kind = .error ∧ j = json)) m' := by
  have hmono := h.mono (Q := fun i j => P i j ∨ (i = id ∧ kind = .error ∧ j = json))
    fun _ _ => Or.inl
  unfold EventMailbox.critical at hc
  split at hc
  · cases hc
  · next job hj =>
      split at hc
      · split at hc
        · next p hp =>
            obtain ⟨_, e, _, _, hd⟩ := hwf.deref hj hp
            simp only [hd, Except.ok.injEq] at hc
            subst hc
            refine hmono.setCritical fun e he => ?_
            obtain ⟨x, hx, rfl⟩ := List.mem_map.mp he
            refine ⟨x, hx, (bump_addr p x).symm, ?_⟩
            unfold bump
            split <;> rfl
        · next hl =>
            obtain rfl := Except.ok.inj hc
            exact h.pushCritical hwf alloc json hl
      · split at hc
        · obtain rfl := Except.ok.inj hc
          exact hmono
        · obtain rfl := Except.ok.inj hc
          exact h.pushCritical hwf alloc json rfl

theorem ErrorRuns.pop {P : String → String → Prop} {m m' : EventMailbox} (h : ErrorRuns P m)
    {order : List String} (hc : m.pop order = .ok m') : ErrorRuns P m' := by
  unfold EventMailbox.pop at hc
  split at hc
  · next e rest hm =>
      have hrest : ErrorRuns P { m with critical_ := rest } :=
        h.setCritical fun x hx => ⟨x, by simp [hm, hx], rfl, rfl⟩
      split at hc
      · cases hc
      · split at hc
        · cases hc
        · next job hj =>
            split at hc
            · cases hc
            · obtain rfl := Except.ok.inj hc
              unfold popLast
              dsimp only
              split
              · exact hrest.eraseJob e.id
              · refine hrest.setJob fun p hp => ⟨job, hj, ?_⟩
                dsimp only at hp
                split at hp
                · cases hp
                · exact hp
      · obtain rfl := Except.ok.inj hc
        refine h.setCritical fun x hx => ?_
        rcases List.mem_cons.mp hx with rfl | hx
        · exact ⟨e, by simp [hm], rfl, rfl⟩
        · exact ⟨x, by simp [hm, hx], rfl, rfl⟩
  · split at hc
    · obtain rfl := Except.ok.inj hc
      exact h
    · split at hc
      · obtain rfl := Except.ok.inj hc
        exact h
      · next job hj =>
          obtain rfl := Except.ok.inj hc
          exact h.setJob fun p hp => ⟨job, hj, hp⟩

end EventMailbox

end LibtorrentKit
