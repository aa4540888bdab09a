/-
  How a mailbox runs empty.

  `unread` counts what `pop` can still take: every occurrence of a critical entry, and one status
  for each torrent that has one. A read takes exactly one of these, the occurrences before the
  statuses (`Drained.read`), and there is something to read as long as the count is not zero. In an
  empty mailbox only torrents that are not retired are left (`retired_of_drained`): a removed
  torrent keeps its place no longer than its events do.
-/
import LibtorrentKit.Lib.Entries
import LibtorrentKit.Mailbox.Capacity
import LibtorrentKit.Mailbox.Statuses

namespace LibtorrentKit

namespace EventMailbox

variable {m m' : EventMailbox} {order : List String} {json : String}

/-- The statuses that wait to be read. -/
def statuses (m : EventMailbox) : Multiset String := m.jobs_.collect Job.status

/-- The number of reads that `pop` has left. -/
def unread (m : EventMailbox) : ℕ := m.occurrences.length + m.statuses.card

theorem statuses_setJob {id : String} {job job' : Job} (hjob : m.jobs_.lookup id = some job)
    (hstatus : job'.status = job.status) :
    statuses { m with jobs_ := m.jobs_.insert id job' } = m.statuses := by
  unfold statuses
  rw [Finmap.collect_insert, Finmap.collect_erase hjob, hstatus]

theorem popLast_statuses (h : m.Orderly) {e : Entry} {rest : List Entry} {job : Job}
    (hjob : m.jobs_.lookup e.id = some job) : (m.popLast e rest job).statuses = m.statuses := by
  unfold popLast
  dsimp only
  split
  · next hretired =>
      have hnone := h.closed e.id job hjob (by simp [Job.closed, hretired.1])
      unfold statuses
      rw [Finmap.collect_erase hjob, hnone]
      exact (zero_add _).symm
  · exact statuses_setJob hjob rfl

/-- What a read takes: the next critical occurrence, or else a status. -/
theorem read_cases (h : m.Orderly) (hfront : m.front order = some json)
    (hpop : m.pop order = .ok m') :
    (∃ id rest, m.occurrences = (id, json) :: rest ∧ m'.occurrences = rest ∧
        m'.statuses = m.statuses) ∨
      (m.occurrences = [] ∧ m'.occurrences = [] ∧ m.statuses = json ::ₘ m'.statuses) := by
  have htakes := pop_takesFront h hpop
  unfold pop at hpop
  split at hpop
  · next e rest hcritical =>
      have hjson : e.json = json := by simpa [front, hcritical] using hfront
      refine Or.inl ?_
      split at hpop
      · cases hpop
      · next hcount =>
          unfold TakesFront at htakes
          rw [occurrences_cons hcritical hcount] at htakes ⊢
          refine ⟨e.id, _, by rw [hjson], htakes.2.1, ?_⟩
          split at hpop
          · cases hpop
          · next job hjob =>
              split at hpop
              · cases hpop
              · obtain rfl := Except.ok.inj hpop
                exact popLast_statuses h hjob
      · next n hcount =>
          unfold TakesFront at htakes
          rw [occurrences_cons hcritical hcount] at htakes ⊢
          refine ⟨e.id, _, by rw [hjson], htakes.2.1, ?_⟩
          obtain rfl := Except.ok.inj hpop
          rfl
  · next hcritical =>
      have hnone : m.occurrences = [] := by rw [occurrences, hcritical, List.flatMap_nil]
      refine Or.inr ⟨hnone, ?_⟩
      unfold TakesFront at htakes
      rw [hnone] at htakes
      refine ⟨htakes.1, ?_⟩
      split at hpop
      · next hholder => simp [front, hcritical, hholder] at hfront
      · next id hholder =>
          split at hpop
          · next hjob => simp [front, hcritical, hholder, hjob] at hfront
          · next job hjob =>
              obtain rfl := Except.ok.inj hpop
              have hstatus : job.status = some json := by
                simpa [front, hcritical, hholder, hjob] using hfront
              unfold statuses
              rw [Finmap.collect_erase hjob, Finmap.collect_insert, hstatus]
              exact (Multiset.singleton_add json _).trans (congrArg _ (zero_add _).symm)

/-- What reads that take `texts` leave of a mailbox `m`: first its critical occurrences go, in
    their order, then its statuses. -/
def Drained (m : EventMailbox) (texts : List String) (m' : EventMailbox) : Prop :=
  ∃ criticals statuses : List String, texts = criticals ++ statuses ∧
    m.occurrences.map Prod.snd = criticals ++ m'.occurrences.map Prod.snd ∧
    m.statuses = ↑statuses + m'.statuses ∧ (statuses ≠ [] → m'.occurrences = [])

theorem Drained.refl (m : EventMailbox) : Drained m [] m :=
  ⟨[], [], rfl, rfl, (zero_add _).symm, fun h => absurd rfl h⟩

theorem Drained.read {m₀ : EventMailbox} {texts : List String} (h : Drained m₀ texts m)
    (horderly : m.Orderly) (hfront : m.front order = some json) (hpop : m.pop order = .ok m') :
    Drained m₀ (texts ++ [json]) m' := by
  obtain ⟨criticals, statuses, rfl, hcriticals, hstatuses, hlast⟩ := h
  rcases read_cases horderly hfront hpop with ⟨id, rest, hbefore, hafter, hsame⟩ |
    ⟨hbefore, hafter, htaken⟩
  · have hnil : statuses = [] := by
      by_contra hne
      rw [hlast hne] at hbefore
      cases hbefore
    subst hnil
    refine ⟨criticals ++ [json], [], ?_, ?_, ?_, fun h => absurd rfl h⟩
    · rw [List.append_nil, List.append_nil]
    · rw [hcriticals, hbefore, hafter, List.map_cons, List.append_assoc, List.singleton_append]
    · rw [hstatuses, hsame]
  · refine ⟨criticals, statuses ++ [json], List.append_assoc _ _ _, ?_, ?_, fun _ => hafter⟩
    · rw [hcriticals, hbefore, hafter]
    · rw [hstatuses, htaken, ← Multiset.coe_add, Multiset.coe_singleton, add_assoc,
        Multiset.singleton_add]

/-- What one read does: it takes nothing, or the event that comes next. -/
inductive Took (m m' : EventMailbox) : Option String → Prop
  | nothing (h : m' = m) : Took m m' none
  | event (order : List String) (json : String) (hfront : m.front order = some json)
      (hpop : m.pop order = .ok m') : Took m m' (some json)

theorem Drained.took {m₀ : EventMailbox} {texts : List String} {text : Option String}
    (h : Drained m₀ texts m) (horderly : m.Orderly) (htook : Took m m' text) :
    Drained m₀ (texts ++ text.toList) m' := by
  cases htook with
  | nothing heq => rwa [Option.toList_none, List.append_nil, heq]
  | event order json hfront hpop => exact h.read horderly hfront hpop

theorem Drained.unread {texts : List String} (h : Drained m texts m') :
    texts.length + m'.unread = m.unread := by
  obtain ⟨criticals, statuses, rfl, hcriticals, hstatuses, -⟩ := h
  have hlength := congrArg List.length hcriticals
  have hcard := congrArg Multiset.card hstatuses
  rw [List.length_map, List.length_append, List.length_map] at hlength
  rw [Multiset.card_add, Multiset.coe_card] at hcard
  unfold EventMailbox.unread
  rw [List.length_append]
  omega

/-- What is taken comes in the order of the occurrences, and the statuses after them. -/
theorem Drained.sorted {texts : List String} (h : Drained m texts m') :
    ∃ statuses : List String, ↑statuses = m.statuses ∧
      texts <+: m.occurrences.map Prod.snd ++ statuses := by
  obtain ⟨criticals, statuses, rfl, hcriticals, hstatuses, hlast⟩ := h
  refine ⟨statuses ++ m'.statuses.toList, ?_, ?_⟩
  · rw [hstatuses, ← Multiset.coe_add, Multiset.coe_toList]
  · by_cases hnil : statuses = []
    · rw [hnil, List.append_nil, hcriticals, List.append_assoc]
      exact List.prefix_append _ _
    · rw [hcriticals, hlast hnil, List.map_nil, List.append_nil, ← List.append_assoc]
      exact List.prefix_append _ _

/-- There is something to read as long as something is unread. -/
theorem front_isSome_iff (hwf : m.WellFormed) (horder : ∀ id ∈ m.jobs_, id ∈ order) :
    (m.front order).isSome = true ↔ 0 < m.unread := by
  unfold front unread
  cases hcritical : m.critical_ with
  | cons e rest =>
      obtain ⟨n, hcount⟩ := Nat.exists_eq_succ_of_ne_zero
        (hwf.countPos e (by rw [hcritical]; exact List.mem_cons_self)).ne'
      rw [occurrences_cons hcritical hcount, List.length_cons]
      exact iff_of_true rfl (by omega)
  | nil =>
      have hnone : m.occurrences = [] := by rw [occurrences, hcritical, List.flatMap_nil]
      rw [hnone, List.length_nil, Nat.zero_add, Multiset.card_pos_iff_exists_mem]
      dsimp only
      constructor
      · intro h
        obtain ⟨json, hjson⟩ := Option.isSome_iff_exists.mp h
        obtain ⟨id, _, hid⟩ := Option.bind_eq_some_iff.mp hjson
        obtain ⟨job, hjob, hstatus⟩ := Option.bind_eq_some_iff.mp hid
        exact ⟨json, Finmap.mem_collect.mpr ⟨id, job, hjob, hstatus⟩⟩
      · rintro ⟨json, hjson⟩
        obtain ⟨id, job, hjob, hstatus⟩ := Finmap.mem_collect.mp hjson
        have hholder : (m.statusHolder order).isSome = true := by
          rw [statusHolder, List.find?_isSome]
          exact ⟨id, horder id (Finmap.mem_of_lookup_eq_some hjob), by simp [hjob, hstatus]⟩
        obtain ⟨i, hi⟩ := Option.isSome_iff_exists.mp hholder
        rw [hi, Option.bind_some]
        simpa using List.find?_some hi

/-- When nothing is unread, the torrents that are left are not retired. -/
theorem retired_of_drained {kindOf : Addr → Option Kind} {tenure : String → Tenure}
    (h : Bounded m kindOf tenure) (hunread : m.unread = 0) {id : String} {job : Job}
    (hjob : m.jobs_.lookup id = some job) : job.retired = false := by
  have hcritical : m.critical_ = [] := by
    by_contra hne
    obtain ⟨e, rest, hm⟩ := List.exists_cons_of_ne_nil hne
    obtain ⟨n, hcount⟩ := Nat.exists_eq_succ_of_ne_zero
      (h.wellFormed.countPos e (by rw [hm]; exact List.mem_cons_self)).ne'
    unfold unread at hunread
    rw [occurrences_cons hm hcount, List.length_cons] at hunread
    omega
  have hpending := h.wellFormed.pending id job hjob
  rw [hcritical, entriesOf_nil, List.length_nil] at hpending
  rw [Bool.eq_false_iff]
  intro hretired
  have := ((h.jobs id job hjob).quiet hretired).1
  omega

end EventMailbox

theorem MailboxAudit.run_orderly {ops : List MailboxOp} {t : MailboxAudit}
    (hrun : Lts.exec step {} ops = some t) : t.trace.mailbox.Orderly := by
  refine Lts.exec_invariant' (fun t : MailboxAudit => t.trace.mailbox.Orderly) .empty ?_ ops t hrun
  intro t op t' h hstep
  obtain ⟨u, hu, rfl⟩ := Option.map_eq_some_iff.mp hstep
  exact (MailboxTrace.step_used hu).orderly h

end LibtorrentKit
