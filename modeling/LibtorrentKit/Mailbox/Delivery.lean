/-
  Runs of the event mailbox: any sequence of its operations, over any number of torrents.

  `MailboxTrace` is a mailbox with the record of what went in and came out, and
  `MailboxTrace.Sound` the invariant of its runs. `mailbox_refines_fifo` is the result.
-/
import LibtorrentKit.Mailbox.Refinement

namespace LibtorrentKit

/-- One use of the mailbox. `nextEvent` is the part of `ltkit_session_next_event` after its
    wait: `front`, a copy that may fail, and `pop` only after a successful copy. -/
inductive MailboxOp where
  | add (id : String)
  | retire (id : String)
  | critical (alloc : Allocator) (id : String) (kind : Kind) (json : String)
  | status (id json : String)
  | nextEvent (order : List String) (copied : Bool)

/-- A mailbox and the record of what went in and came out. -/
structure MailboxTrace where
  mailbox : EventMailbox := {}
  log : List MailEvent := []

namespace MailboxTrace

open EventMailbox

/-- One use of the mailbox. `add` is called only when `can_add` holds; a call that throws
    `std::out_of_range` changes nothing; undefined behaviour ends the run. -/
def step (t : MailboxTrace) : MailboxOp → Option MailboxTrace
  | .add id =>
      if t.mailbox.canAdd id then some ⟨t.mailbox.add id, t.log ++ [.begin id]⟩ else none
  | .retire id => some { t with mailbox := t.mailbox.retire id }
  | .critical alloc id kind json =>
      match t.mailbox.critical alloc id kind json with
      | .ok m => some ⟨m, t.log ++ [.submit id kind json]⟩
      | .error .outOfRange => some t
      | .error .undefinedBehaviour => none
  | .status id json =>
      match t.mailbox.status id json with
      | .ok m => some { t with mailbox := m }
      | .error .outOfRange => some t
      | .error .undefinedBehaviour => none
  | .nextEvent order copied =>
      match t.mailbox.front order with
      | none => some t
      | some json =>
          if copied then
            match t.mailbox.pop order with
            | .ok m =>
                some ⟨m, t.log ++ (t.mailbox.critical_.head?.map fun e =>
                  KeyedFifo.Op.take e.id json).toList⟩
            | .error _ => none
          else some t

theorem canAdd_of_step {t t' : MailboxTrace} {id : String} (h : t.step (.add id) = some t') :
    t.mailbox.canAdd id = true := by
  simp only [step, Option.ite_none_right_eq_some] at h
  exact h.1

/-- What one use does to the mailbox: an operation that throws changes nothing, and neither does
    a read that is not copied. -/
inductive Used (m : EventMailbox) : MailboxOp → EventMailbox → Prop
  | add (id : String) : Used m (.add id) (m.add id)
  | retire (id : String) : Used m (.retire id) (m.retire id)
  | critical {alloc : Allocator} {id : String} {kind : Kind} {json : String} {m' : EventMailbox}
      (h : m.critical alloc id kind json = .ok m') : Used m (.critical alloc id kind json) m'
  | criticalThrows {alloc : Allocator} {id : String} {kind : Kind} {json : String}
      (h : m.jobs_.lookup id = none) : Used m (.critical alloc id kind json) m
  | status {id json : String} {m' : EventMailbox} (h : m.status id json = .ok m') :
      Used m (.status id json) m'
  | statusThrows (id json : String) : Used m (.status id json) m
  | keep (order : List String) (copied : Bool) : Used m (.nextEvent order copied) m
  | pop {order : List String} {copied : Bool} {m' : EventMailbox} (h : m.pop order = .ok m') :
      Used m (.nextEvent order copied) m'

theorem step_used {t t' : MailboxTrace} {op : MailboxOp} (h : t.step op = some t') :
    Used t.mailbox op t'.mailbox := by
  cases op with
  | add id =>
      simp only [step, Option.ite_none_right_eq_some, Option.some.injEq] at h
      obtain ⟨_, rfl⟩ := h
      exact .add id
  | retire id =>
      obtain rfl := Option.some.inj h
      exact .retire id
  | critical alloc id kind json =>
      simp only [step] at h
      split at h
      · next m hm =>
          obtain rfl := Option.some.inj h
          exact .critical hm
      · next hm =>
          obtain rfl := Option.some.inj h
          refine .criticalThrows ?_
          unfold EventMailbox.critical at hm
          split at hm
          · next hnone => exact hnone
          · split at hm
            · split at hm
              · split at hm <;> cases hm
              · cases hm
            · split at hm <;> cases hm
      · cases h
  | status id json =>
      simp only [step] at h
      split at h
      · next m hm =>
          obtain rfl := Option.some.inj h
          exact .status hm
      · obtain rfl := Option.some.inj h
        exact .statusThrows id json
      · cases h
  | nextEvent order copied =>
      simp only [step] at h
      split at h
      · obtain rfl := Option.some.inj h
        exact .keep order copied
      · split at h
        · split at h
          · next m hm =>
              obtain rfl := Option.some.inj h
              exact .pop hm
          · cases h
        · obtain rfl := Option.some.inj h
          exact .keep order copied

/-- All error payloads of one torrent between two adds are equal. -/
def ErrorsAgree (log : List MailEvent) : Prop :=
  ∀ id pre, pre <+: log → ∀ j j', (Kind.error, j) ∈ KeyedFifo.submitted id pre →
    (Kind.error, j') ∈ KeyedFifo.submitted id pre → j = j'

/-- The payload of an unread error run was submitted in the present life. -/
def Submitted (log : List MailEvent) (id json : String) : Prop :=
  (Kind.error, json) ∈ KeyedFifo.submitted id log

/-- The invariant of a run: the mailbox is well-formed, it holds what the log says it should,
    and an unread error run carries an error payload submitted in the present life. -/
structure Sound (t : MailboxTrace) : Prop where
  wellFormed : t.mailbox.WellFormed
  refines : ∃ f, Lts.exec (KeyedFifo.step Kind.oneShot) KeyedFifo.State.empty t.log = some f ∧
    t.mailbox.Refines f
  known : t.mailbox.ErrorRuns (Submitted t.log)

theorem Sound.empty : Sound {} where
  wellFormed := .empty
  refines := ⟨_, rfl, .empty⟩
  known := fun id job p e hj _ _ _ => by simp at hj

/-- The log grows by one operation that the abstract queues take. -/
theorem refines_concat {m m' : EventMailbox} {log : List MailEvent} {op : MailEvent}
    (h : ∃ f, Lts.exec (KeyedFifo.step Kind.oneShot) KeyedFifo.State.empty log = some f ∧
      m.Refines f)
    (hop : ∀ f, m.Refines f →
      ∃ f', KeyedFifo.step Kind.oneShot f op = some f' ∧ m'.Refines f') :
    ∃ f, Lts.exec (KeyedFifo.step Kind.oneShot) KeyedFifo.State.empty (log ++ [op]) = some f ∧
      m'.Refines f := by
  obtain ⟨f, hf, hm⟩ := h
  obtain ⟨f', hs, hm'⟩ := hop f hm
  exact ⟨f', Lts.exec_snoc_eq_some.mpr ⟨f, hf, hs⟩, hm'⟩

theorem log_grows {t t' : MailboxTrace} {op : MailboxOp} (h : t.step op = some t') :
    t.log <+: t'.log := by
  cases op with
  | add id =>
      simp only [step, Option.ite_none_right_eq_some, Option.some.injEq] at h
      obtain ⟨_, rfl⟩ := h
      exact List.prefix_append _ _
  | retire id =>
      obtain rfl := Option.some.inj h
      exact List.prefix_refl _
  | critical alloc id kind json =>
      simp only [step] at h
      split at h
      · obtain rfl := Option.some.inj h
        exact List.prefix_append _ _
      · obtain rfl := Option.some.inj h
        exact List.prefix_refl _
      · cases h
  | status id json =>
      simp only [step] at h
      split at h
      · obtain rfl := Option.some.inj h
        exact List.prefix_refl _
      · obtain rfl := Option.some.inj h
        exact List.prefix_refl _
      · cases h
  | nextEvent order copied =>
      simp only [step] at h
      split at h
      · obtain rfl := Option.some.inj h
        exact List.prefix_refl _
      · split at h
        · split at h
          · obtain rfl := Option.some.inj h
            exact List.prefix_append _ _
          · cases h
        · obtain rfl := Option.some.inj h
          exact List.prefix_refl _

theorem Sound.step {t t' : MailboxTrace} (h : Sound t) {op : MailboxOp}
    (hagree : ErrorsAgree t'.log) (hs : t.step op = some t') : Sound t' := by
  cases op with
  | add id =>
      simp only [MailboxTrace.step, Option.ite_none_right_eq_some, Option.some.injEq] at hs
      obtain ⟨hcan, rfl⟩ := hs
      have hid : id ∉ t.mailbox.jobs_ := by
        simp only [canAdd, Bool.and_eq_true, decide_eq_true_eq] at hcan
        exact hcan.2
      refine ⟨h.wellFormed.add id, refines_concat h.refines fun f hf => hf.add h.wellFormed hid, ?_⟩
      refine (h.known.add hid).mono fun i json hij => ?_
      simp only [Submitted, KeyedFifo.submitted_concat, KeyedFifo.submittedStep]
      rw [if_neg (Ne.symm hij.1)]
      exact hij.2
  | retire id =>
      obtain rfl := Option.some.inj hs
      obtain ⟨f, hf, hm⟩ := h.refines
      exact ⟨h.wellFormed.retire id, ⟨f, hf, hm.retire id⟩, h.known.retire id⟩
  | critical alloc id kind json =>
      simp only [MailboxTrace.step] at hs
      split at hs
      · next m hm =>
          obtain rfl := Option.some.inj hs
          have hnew : ∀ i k j, (k, j) ∈ KeyedFifo.submitted i t.log ∨
              (i = id ∧ k = kind ∧ j = json) →
              (k, j) ∈ KeyedFifo.submitted i (t.log ++ [.submit id kind json]) := by
            intro i k j hkj
            rw [KeyedFifo.submitted_concat, KeyedFifo.submittedStep]
            rcases hkj with hold | ⟨rfl, rfl, rfl⟩
            · split
              · exact List.mem_append_left _ hold
              · exact hold
            · simp
          -- the unread run was submitted in this life, and so is the new payload: they agree
          have hassert : t.mailbox.asserted id kind json := by
            rintro rfl run hrun
            exact hagree id _ (List.prefix_refl _) _ _
              (hnew id .error run.json (Or.inl (h.known.unreadError hrun)))
              (hnew id .error json (Or.inr ⟨rfl, rfl, rfl⟩))
          refine ⟨h.wellFormed.critical hm,
            refines_concat h.refines fun f hf => hf.critical h.wellFormed hassert hm, ?_⟩
          refine (h.known.critical h.wellFormed hm).mono fun i j hij => ?_
          rcases hij with hij | ⟨rfl, rfl, rfl⟩
          · exact hnew i .error j (Or.inl hij)
          · exact hnew i .error j (Or.inr ⟨rfl, rfl, rfl⟩)
      · obtain rfl := Option.some.inj hs
        exact h
      · cases hs
  | status id json =>
      simp only [MailboxTrace.step] at hs
      split at hs
      · next m hm =>
          obtain rfl := Option.some.inj hs
          obtain ⟨f, hf, hr⟩ := h.refines
          exact ⟨h.wellFormed.status hm, ⟨f, hf, hr.status hm⟩, h.known.status hm⟩
      · obtain rfl := Option.some.inj hs
        exact h
      · cases hs
  | nextEvent order copied =>
      simp only [MailboxTrace.step] at hs
      split at hs
      · obtain rfl := Option.some.inj hs
        exact h
      · next json hfront =>
          split at hs
          · split at hs
            · next m hm =>
                obtain rfl := Option.some.inj hs
                cases hcrit : t.mailbox.critical_ with
                | nil =>
                    obtain ⟨f, hf, hr⟩ := h.refines
                    simp only [List.head?_nil, Option.map_none, Option.toList_none, List.append_nil]
                    exact ⟨h.wellFormed.pop hm, ⟨f, hf, hr.pop_status hcrit hm⟩, h.known.pop hm⟩
                | cons e rest =>
                    obtain rfl : e.json = json := by
                      simpa [front, hcrit] using hfront
                    simp only [List.head?_cons, Option.map_some, Option.toList_some]
                    refine ⟨h.wellFormed.pop hm,
                      refines_concat h.refines fun f hf => hf.pop_critical hcrit hm, ?_⟩
                    refine (h.known.pop hm).mono fun i j hij => ?_
                    simpa [Submitted, KeyedFifo.submitted_concat, KeyedFifo.submittedStep] using hij
            · cases hs
          · obtain rfl := Option.some.inj hs
            exact h

theorem ErrorsAgree.anti {log log' : List MailEvent} (h : ErrorsAgree log')
    (hp : log <+: log') : ErrorsAgree log :=
  fun id pre hpre => h id pre (hpre.trans hp)

theorem Sound.run {ops : List MailboxOp} {t : MailboxTrace}
    (hrun : Lts.exec MailboxTrace.step {} ops = some t) (hagree : ErrorsAgree t.log) : Sound t := by
  induction ops using List.reverseRecOn generalizing t with
  | nil =>
      obtain rfl := Option.some.inj hrun
      exact .empty
  | append_singleton ops op ih =>
      obtain ⟨u, hu, hut⟩ := Lts.exec_snoc_eq_some.mp hrun
      exact (ih hu (hagree.anti (log_grows hut))).step hagree hut

/-- In a well-formed mailbox an operation is refused only if it is an `add` that `can_add` forbids. -/
theorem step_eq_none {t : MailboxTrace} (h : t.mailbox.WellFormed) {op : MailboxOp}
    (hs : t.step op = none) : ∃ id, op = .add id ∧ t.mailbox.canAdd id = false := by
  cases op with
  | add id =>
      refine ⟨id, rfl, ?_⟩
      simpa [MailboxTrace.step] using hs
  | retire id => cases hs
  | critical alloc id kind json =>
      have := h.critical_defined alloc id kind json
      simp only [MailboxTrace.step] at hs
      split at hs
      · cases hs
      · cases hs
      · next hub => exact absurd hub this
  | status id json =>
      simp only [MailboxTrace.step, EventMailbox.status] at hs
      split at hs
      · cases hs
      · cases hs
      · next hub =>
          split at hub
          · cases hub
          · split at hub <;> cases hub
  | nextEvent order copied =>
      obtain ⟨m, hm⟩ := h.pop_defined order
      simp only [MailboxTrace.step, hm] at hs
      split at hs
      · cases hs
      · split at hs <;> cases hs

/-- **The mailbox refines a per-torrent FIFO.** For every sequence of uses, over any number
    of torrents and with any pattern of failed copies: what has been read of a torrent since
    its `add`, followed by what is still queued for it, is what was submitted for it, in
    order and without the repeats of one-shot kinds. Nothing but a refused `add` stops the
    run. -/
theorem mailbox_refines_fifo (ops : List MailboxOp) (t : MailboxTrace)
    (hrun : Lts.exec MailboxTrace.step {} ops = some t) (hagree : ErrorsAgree t.log) :
    (∀ id, KeyedFifo.taken id t.log ++ t.mailbox.queued id =
      KeyedFifo.dropRepeats Kind.oneShot [] (KeyedFifo.submitted id t.log)) ∧
    ∀ op, t.step op = none → ∃ id, op = .add id ∧ t.mailbox.canAdd id = false := by
  have hsound := Sound.run hrun hagree
  refine ⟨fun id => ?_, fun op => step_eq_none hsound.wellFormed⟩
  obtain ⟨f, hf, hm⟩ := hsound.refines
  rw [← hm.queue]
  exact KeyedFifo.taken_append_queue hf id

/-- Two occurrences of one error, of which one is read back. -/
def errorRun : List MailboxOp :=
  [.add "a", .critical bumpAllocator "a" .error "e", .critical bumpAllocator "a" .error "e",
    .nextEvent ["a"] true]

theorem mailbox_refines_fifo_errorRun :
    ∃ t, Lts.exec MailboxTrace.step {} errorRun = some t ∧
      KeyedFifo.taken "a" t.log ++ t.mailbox.queued "a" =
        KeyedFifo.dropRepeats Kind.oneShot [] (KeyedFifo.submitted "a" t.log) := by
  have hlog : (Lts.exec MailboxTrace.step {} errorRun).map MailboxTrace.log =
      some [.begin "a", .submit "a" .error "e", .submit "a" .error "e", .take "a" "e"] := by
    decide +kernel
  obtain ⟨t, ht, htlog⟩ := Option.map_eq_some_iff.mp hlog
  have hsame : ∀ id pre, pre <+: t.log → ∀ j, (Kind.error, j) ∈ KeyedFifo.submitted id pre →
      j = "e" := by
    intro id pre hpre j hj
    have hmem := hpre.subset (KeyedFifo.mem_of_mem_submitted hj)
    rw [htlog] at hmem
    simp at hmem
    exact hmem.2
  have hagree : ErrorsAgree t.log := fun id pre hpre j j' hj hj' =>
    (hsame id pre hpre j hj).trans (hsame id pre hpre j' hj').symm
  exact ⟨t, ht, (mailbox_refines_fifo errorRun t ht hagree).1 "a"⟩

end MailboxTrace

end LibtorrentKit
