/-
  The life of the native session.

  Two lanes share one pointer. `Host.Safe` is what keeps it alive: a wake holds the lock of the
  handle, an operation of the native lane holds up the destroy block, and one of the event lane
  holds up the drain that the shutdown waits for; behind the drain the reader is closed.
  `session_outlives_calls` puts it together.
-/
import LibtorrentKit.Swift.Calls

namespace LibtorrentKit

/-- The block has read the pointer, and its closure has not returned. -/
def OpPhase.hasPointer : OpPhase → Bool
  | .holding => true
  | phase => phase.inClosure

theorem OpPhase.active_of_hasPointer {phase : OpPhase} (h : phase.hasPointer = true) :
    phase.active = true := by
  cases phase <;> first | rfl | cases h

theorem OpPhase.hasPointer_of_inClosure {phase : OpPhase} (h : phase.inClosure = true) :
    phase.hasPointer = true := by
  cases phase <;> first | rfl | cases h

theorem OpPhase.inClosure_of_usesPointer {phase : OpPhase} (h : phase.usesPointer = true) :
    phase.inClosure = true := by
  cases phase <;> first | rfl | cases h

/-- What `perform` has returned for is no longer in its closure, nor before it. -/
theorem Op.Ok.not_hasPointer {op : Op} (h : op.Ok) (hsome : op.outcome.isSome = true) :
    op.phase.hasPointer = false := by
  rcases h.outcome_iff.mp hsome with hphase | hphase <;> rw [hphase] <;> rfl

namespace Host

/-- Nobody is left who refers to the handle. -/
structure Deserted (s : Host) : Prop where
  released : s.released = true
  rests : s.shutdownRests = true
  queues : ∀ lane, (s.lanes lane).queue = []
  returned : ∀ x op, s.ops.lookup x = some op → op.returned = true ∧ op.outcome.isSome = true

/-- What keeps the pointer alive while it is used. -/
structure Safe (s : Host) : Prop where
  closing : 2 ≤ s.shutdown.rank → s.closed = true
  released : s.released = true → s.closed = true
  lock : s.lock ≠ none → s.storage = .held
  destroys : s.destroys = if s.storage = .destroyed then 1 else 0
  gone : s.gone = true → s.Deserted
  storage : s.storage ≠ .held → s.gone = true ∨ 7 ≤ s.shutdown.rank
  finished : 8 ≤ s.shutdown.rank → s.storage ≠ .held
  native : ∀ x op, s.ops.lookup x = some op → op.lane = .native → op.phase.hasPointer = true →
    s.storage = .held
  events : ∀ x op, s.ops.lookup x = some op → op.lane = .events → op.phase.inClosure = true →
    s.shutdown.rank ≤ 4

/-! ## Flags that are never reset -/

theorem step_closed {s s' : Host} {l : Step} (h : s.step l = some s') (hclosed : s.closed = true) :
    s'.closed = true := by
  cases step_end h with
  | run env lane x op op' _ hhead hop hrun hspec => exact hspec.closed hclosed
  | wakeNothing waker => exact (woken_closed s waker).trans hclosed
  | woke env waker => exact (woken_closed _ waker).trans hclosed
  | returns x op =>
      unfold returns
      dsimp only
      split
      · rfl
      · exact hclosed
  | closing | close | release => rfl
  | submit | enqueue | cancel | drain | take | destroy | destroyNothing | wake | shutdown
  | shutdownAgain | addDrain | addDestroy | alert | deinit | deinitNothing => exact hclosed

theorem woken_shutdown (s : Host) (waker : Waker) :
    (s.woken waker).shutdown = s.shutdown ∨
      (s.shutdown = .closing ∧ (s.woken waker).shutdown = .closed) ∨
      (s.shutdown = .waking ∧ (s.woken waker).shutdown = .woken) := by
  cases waker with
  | handler x =>
      simp only [woken]
      split
      · split
        · exact Or.inl rfl
        · exact Or.inl rfl
      · exact Or.inl rfl
  | closer => exact Or.inl rfl
  | closing x =>
      simp only [woken]
      split
      · split
        · exact Or.inl rfl
        · exact Or.inl rfl
      · exact Or.inl rfl
  | shutdown =>
      simp only [woken]
      split
      · next hs => exact Or.inr (Or.inl ⟨hs, rfl⟩)
      · next hs => exact Or.inr (Or.inr ⟨hs, rfl⟩)
      · exact Or.inl rfl

/-- The shutdown rests, or goes on by one part. It closes the reader first, and is called only
    on a session that is still there; the drain is done when it is the turn of its block. -/
theorem step_shutdown {s s' : Host} {l : Step} (ho : s.Ordered) (h : s.step l = some s') :
    s'.shutdown = s.shutdown ∨ (s'.shutdown.rank = s.shutdown.rank + 1 ∧
      (s.shutdown.rank = 0 → s.released = false) ∧ (s.shutdown.rank = 1 → s'.closed = true) ∧
      (s.shutdown.rank = 4 → (s.lanes .events).queue.head? = some .drain)) := by
  have hwoken : ∀ {t : Host} (waker : Waker), t.shutdown = s.shutdown →
      (t.woken waker).shutdown = s.shutdown ∨
        ((t.woken waker).shutdown.rank = s.shutdown.rank + 1 ∧
          (s.shutdown.rank = 2 ∨ s.shutdown.rank = 5)) := by
    intro t waker ht
    rw [← ht]
    rcases woken_shutdown t waker with heq | ⟨hs, heq⟩ | ⟨hs, heq⟩
    · exact Or.inl heq
    · exact Or.inr (by rw [heq, hs]; exact ⟨rfl, Or.inl rfl⟩)
    · exact Or.inr (by rw [heq, hs]; exact ⟨rfl, Or.inr rfl⟩)
  have hlater : ∀ {r : Nat} {P Q R : Prop}, s.shutdown.rank = r → r = 2 ∨ r = 3 ∨ 5 ≤ r →
      (s.shutdown.rank = 0 → P) ∧ (s.shutdown.rank = 1 → Q) ∧ (s.shutdown.rank = 4 → R) := by
    intro r P Q R hs hr
    refine ⟨fun h => ?_, fun h => ?_, fun h => ?_⟩ <;> omega
  cases step_end h with
  | run env lane x op op' _ hhead hop hrun hspec => exact Or.inl hspec.shutdown
  | wakeNothing waker =>
      refine (hwoken waker rfl).imp_right fun hr => ⟨hr.1, hlater rfl ?_⟩
      omega
  | woke env waker w =>
      refine (@hwoken { s with world := w, lock := none } waker rfl).imp_right
        fun hr => ⟨hr.1, hlater rfl ?_⟩
      omega
  | drain env lane hhead =>
      obtain ⟨rfl, hrank⟩ := (ho.marked .events lane).mp (SerialQueue.mem_queue_of_head hhead)
      have hfour : s.shutdown.rank = 4 := hrank
      refine Or.inr ⟨(congrArg (· + 1) hfour).symm, fun h => ?_, fun h => ?_, fun _ => hhead⟩ <;>
        omega
  | destroy env lane w hhead =>
      have hrank := ((ho.marked .native lane).mp (SerialQueue.mem_queue_of_head hhead)).2
      exact Or.inr ⟨(congrArg (· + 1) hrank).symm, hlater hrank (by decide)⟩
  | destroyNothing env lane hhead =>
      have hrank := ((ho.marked .native lane).mp (SerialQueue.mem_queue_of_head hhead)).2
      exact Or.inr ⟨(congrArg (· + 1) hrank).symm, hlater hrank (by decide)⟩
  | shutdown hreleased hidle =>
      rw [hidle]
      exact Or.inr ⟨rfl, fun _ => hreleased, by simp [Shutdown.rank], by simp [Shutdown.rank]⟩
  | closing hs =>
      rw [hs]
      exact Or.inr ⟨rfl, by simp [Shutdown.rank], fun _ => rfl, by simp [Shutdown.rank]⟩
  | addDrain hs =>
      have hthree : s.shutdown.rank = 3 := by rw [hs]; rfl
      exact Or.inr ⟨by rw [hthree]; rfl, hlater hthree (by decide)⟩
  | addDestroy hs =>
      have hsix : s.shutdown.rank = 6 := by rw [hs]; rfl
      exact Or.inr ⟨by rw [hsix]; rfl, hlater hsix (by decide)⟩
  | returns x op =>
      refine Or.inl ?_
      unfold returns
      dsimp only
      split <;> rfl
  | submit | enqueue | cancel | take | wake | shutdownAgain | close | alert | release | deinit
  | deinitNothing => exact Or.inl rfl

theorem step_released {s s' : Host} {l : Step} (h : s.step l = some s') :
    (s.released = true → s'.released = true) ∧
      (s'.released = true → s.released = true ∨ s'.closed = true) := by
  cases step_end h with
  | run env lane x op op' _ hhead hop hrun hspec =>
      rw [hspec.released]
      exact ⟨id, Or.inl⟩
  | wakeNothing waker =>
      rw [woken_released]
      exact ⟨id, Or.inl⟩
  | woke env waker =>
      rw [woken_released]
      exact ⟨id, Or.inl⟩
  | returns x op =>
      unfold returns
      dsimp only
      split <;> exact ⟨id, Or.inl⟩
  | release => exact ⟨fun _ => rfl, fun _ => Or.inr rfl⟩
  | submit | enqueue | cancel | drain | take | destroy | destroyNothing | wake | shutdown
  | shutdownAgain | closing | addDrain | addDestroy | close | alert | deinit
  | deinitNothing => exact ⟨id, Or.inl⟩

/-! ## The storage -/

/-- The pointer leaves the storage in two ways: the destroy block takes it, or nobody refers to
    the handle any more. -/
theorem step_storage {s s' : Host} {l : Step} (h : s.step l = some s') :
    (s'.storage = s.storage ∧ s'.destroys = s.destroys) ∨
    (s.storage = .held ∧ s'.storage = .taken ∧ s'.destroys = s.destroys ∧ s.lock = none ∧
      s'.lock = none ∧ s'.ops = s.ops ∧ ∃ lane, (s.lanes lane).queue.head? = some .destroy) ∨
    (s.storage = .taken ∧ s'.storage = .destroyed ∧ s'.destroys = s.destroys + 1) ∨
    (s.storage = .held ∧ s'.storage = .destroyed ∧ s'.destroys = s.destroys + 1 ∧
      s.isHandleReferenced = false ∧ s'.gone = true ∧ s'.lock = none) := by
  cases step_end h with
  | run env lane x op op' _ hhead hop hrun hspec => exact Or.inl ⟨hspec.storage, hspec.destroys⟩
  | take env lane hhead hstorage hlock =>
      exact Or.inr (Or.inl ⟨hstorage, rfl, rfl, hlock, hlock, rfl, lane, hhead⟩)
  | destroy env lane w hhead hstorage => exact Or.inr (Or.inr (Or.inl ⟨hstorage, rfl, rfl⟩))
  | deinit w hgone hreferenced hstorage =>
      refine Or.inr (Or.inr (Or.inr ⟨hstorage, rfl, rfl, hreferenced, rfl, ?_⟩))
      simp only [isHandleReferenced, Bool.or_eq_false_iff, Option.isSome_eq_false_iff,
        Option.isNone_iff_eq_none] at hreferenced
      exact hreferenced.1.1.1.1.2
  | wakeNothing waker => exact Or.inl ⟨woken_storage s waker, woken_destroys s waker⟩
  | woke env waker => exact Or.inl ⟨woken_storage _ waker, woken_destroys _ waker⟩
  | returns x op =>
      refine Or.inl ?_
      unfold returns
      dsimp only
      split <;> exact ⟨rfl, rfl⟩
  | submit | enqueue | cancel | drain | destroyNothing | wake | shutdown | shutdownAgain | closing
  | addDrain | addDestroy | close | alert | release | deinitNothing => exact Or.inl ⟨rfl, rfl⟩

/-! ## Operations that hold the pointer -/

/-- An operation gets hold of the pointer only while the storage has it. -/
theorem OpsStep.hasPointer {s s' : Host} (h : OpsStep s s') {x : OpId} {op' : Op}
    (hop' : s'.ops.lookup x = some op') (hp : op'.phase.hasPointer = true) :
    s.storage = .held ∨ ∃ op, s.ops.lookup x = some op ∧ op.lane = op'.lane ∧
      op.phase.hasPointer = true := by
  rcases h.op_before hop' with ⟨_, heq⟩ | ⟨op, hop, rfl | hspec | htouch⟩
  · rw [heq] at hp
    cases hp
  · exact Or.inr ⟨op', hop, rfl, hp⟩
  · have hlane := hspec.run.kept.1.symm
    have hholds := hspec.holds
    cases hspec.run with
    | hold hphase => exact Or.inl (hholds hphase rfl)
    | answer response hphase =>
        refine Or.inr ⟨op, hop, hlane, ?_⟩
        rcases hphase with heq | heq <;> rw [heq] <;> rfl
    | start hphase | wait hphase | report response hphase | close response hphase =>
        exact Or.inr ⟨op, hop, hlane, by rw [hphase]; rfl⟩
    | refuse | begin | shutDown | skip | yield | decide | resume | finish => cases hp
  · refine Or.inr ⟨op, hop, htouch.kept.1.symm, ?_⟩
    cases htouch with
    | enqueue | closed => cases hp
    | cancel | woken | returns => exact hp

/-- A closure of the event lane starts its call only while the reader is open. -/
theorem OpsStep.inClosure {s s' : Host} (h : OpsStep s s') {x : OpId} {op' : Op}
    (hop' : s'.ops.lookup x = some op') (hlane : op'.lane = .events)
    (hp : op'.phase.inClosure = true) :
    s.closed = false ∨ ∃ op, s.ops.lookup x = some op ∧ op.lane = .events ∧
      op.phase.inClosure = true := by
  rcases h.op_before hop' with ⟨_, heq⟩ | ⟨op, hop, rfl | hspec | htouch⟩
  · rw [heq] at hp
    cases hp
  · exact Or.inr ⟨op', hop, hlane, hp⟩
  · have hlane' : op.lane = .events := hspec.run.kept.1.symm.trans hlane
    have hopens := hspec.opens
    cases hspec.run with
    | start hphase => exact Or.inl (hopens rfl hlane')
    | answer response hphase =>
        refine Or.inr ⟨op, hop, hlane', ?_⟩
        rcases hphase with heq | heq <;> rw [heq] <;> rfl
    | wait hphase | report response hphase | close response hphase =>
        exact Or.inr ⟨op, hop, hlane', by rw [hphase]; rfl⟩
    | hold | refuse | begin | shutDown | skip | yield | decide | resume | finish => cases hp
  · refine Or.inr ⟨op, hop, htouch.kept.1.symm.trans hlane, ?_⟩
    cases htouch with
    | enqueue | closed => cases hp
    | cancel | woken | returns => exact hp

/-! ## The end of the handle -/

theorem shutdownRests_iff {s : Host} :
    s.shutdownRests = true ↔ s.shutdown = .idle ∨ s.shutdown = .finished := by
  simp [shutdownRests]

/-- When the handle goes, nobody is left who could use it. -/
theorem deserted_of_unreferenced {s : Host} (hok : ∀ x op, s.ops.lookup x = some op → op.Ok)
    (h : s.isHandleReferenced = false) : s.Deserted := by
  simp only [isHandleReferenced, Bool.or_eq_false_iff, Bool.not_eq_eq_eq_not, Bool.not_false,
    decide_eq_false_iff_not, not_not] at h
  obtain ⟨⟨⟨⟨⟨⟨hreleased, hrests⟩, _⟩, _⟩, hnative⟩, hevents⟩, hops⟩ := h
  refine ⟨hreleased, hrests, fun lane => ?_, fun x op hop => ?_⟩
  · cases lane with
    | native => exact hnative
    | events => exact hevents
  · have hret : op.returned = true := by
      by_contra hnot
      refine hops ⟨x, Finmap.mem_keys.mpr (Finmap.mem_of_lookup_eq_some hop), ?_⟩
      simp [hop, Bool.eq_false_iff.mpr hnot]
    exact ⟨hret, (hok x op hop).returned hret⟩

theorem step_gone {s s' : Host} {l : Step} (h : s.step l = some s') :
    s'.gone = s.gone ∨ (l = .deinit ∧ s.gone = false ∧ s.isHandleReferenced = false ∧
      s'.gone = true ∧ s'.ops = s.ops ∧ s'.lanes = s.lanes ∧ s'.released = s.released ∧
      s'.shutdown = s.shutdown) := by
  cases step_end h with
  | run env lane x op op' _ hhead hop hrun hspec => exact Or.inl hspec.gone
  | wakeNothing waker => exact Or.inl (woken_gone s waker)
  | woke env waker => exact Or.inl (woken_gone _ waker)
  | deinit w hgone hreferenced => exact Or.inr ⟨rfl, hgone, hreferenced, rfl, rfl, rfl, rfl, rfl⟩
  | deinitNothing hgone hreferenced =>
      exact Or.inr ⟨rfl, hgone, hreferenced, rfl, rfl, rfl, rfl, rfl⟩
  | returns x op =>
      refine Or.inl ?_
      unfold returns
      dsimp only
      split <;> rfl
  | submit | enqueue | cancel | drain | take | destroy | destroyNothing | wake | shutdown
  | shutdownAgain | closing | addDrain | addDestroy | close | alert | release => exact Or.inl rfl

theorem Deserted.woken {s t : Host} (h : s.Deserted) (waker : Waker) (hops : t.ops = s.ops)
    (hlanes : t.lanes = s.lanes) (hshutdown : t.shutdown = s.shutdown)
    (hreleased : t.released = s.released) : (t.woken waker).Deserted where
  released := by rw [woken_released, hreleased, h.released]
  rests := by
    rw [shutdownRests_iff]
    rcases woken_shutdown t waker with heq | ⟨hs, _⟩ | ⟨hs, _⟩
    · rw [heq, hshutdown]
      exact shutdownRests_iff.mp h.rests
    all_goals
      have hrests := shutdownRests_iff.mp h.rests
      rw [← hshutdown, hs] at hrests
      simp at hrests
  queues lane := by rw [woken_lanes, hlanes, h.queues]
  returned x op hop := by
    rcases woken_ops t waker with heq | ⟨y, op₀, op₁, hop₀, htouch, heq⟩
    · exact h.returned x op (by rw [← hops, ← heq, hop])
    · rw [heq] at hop
      by_cases hxy : x = y
      · subst hxy
        rw [Finmap.lookup_insert] at hop
        obtain rfl := Option.some.inj hop
        obtain ⟨hret, hsome⟩ := h.returned x op₀ (hops ▸ hop₀)
        cases htouch <;> exact ⟨by first | exact hret | rfl, hsome⟩
      · rw [Finmap.lookup_insert_of_ne _ hxy, hops] at hop
        exact h.returned x op hop

/-- A host that nobody refers to stays that way. -/
theorem step_deserted {s s' : Host} {l : Step} (hok : ∀ x op, s.ops.lookup x = some op → op.Ok)
    (hclosed : s.closed = true) (h : s.Deserted) (hgone : s.gone = true)
    (hstep : s.step l = some s') : s'.Deserted := by
  have hrests := shutdownRests_iff.mp h.rests
  cases step_end hstep with
  | submit x lane semantics api _ hnative _ hevents =>
      cases lane with
      | native => exact absurd (hnative rfl) (by simp [h.released])
      | events => exact absurd (hevents rfl) (by simp [hclosed])
  | enqueue x op hop hphase =>
      have hout := (hok x op hop).outcome_iff.mp (h.returned x op hop).2
      simp [hphase] at hout
  | cancel x op hop _ hreturned => exact absurd hreturned (by simp [(h.returned x op hop).1])
  | run env lane x op op' _ hhead => simp [h.queues] at hhead
  | drain env lane hhead => simp [h.queues] at hhead
  | take env lane hhead => simp [h.queues] at hhead
  | destroy env lane w hhead => simp [h.queues] at hhead
  | destroyNothing env lane hhead => simp [h.queues] at hhead
  | wakeNothing waker => exact h.woken waker rfl rfl rfl rfl
  | woke env waker => exact h.woken waker rfl rfl rfl rfl
  | returns x op hop hreturned => exact absurd hreturned (by simp [(h.returned x op hop).1])
  | close hnot => exact absurd hnot (by simp [hgone])
  | shutdown hreleased => exact absurd hreleased (by simp [h.released])
  | shutdownAgain hreleased => exact absurd hreleased (by simp [h.released])
  | closing hs => simp [hs] at hrests
  | addDrain hs => simp [hs] at hrests
  | addDestroy hs => simp [hs] at hrests
  | release hreleased => exact absurd hreleased (by simp [h.released])
  | deinit w hnot => exact absurd hnot (by simp [hgone])
  | deinitNothing hnot => exact absurd hnot (by simp [hgone])
  | wake | alert => exact ⟨h.released, h.rests, h.queues, h.returned⟩

/-! ## Safety -/

theorem Safe.not_inClosure {s : Host} (h : s.Safe)
    (hok : ∀ x op, s.ops.lookup x = some op → op.Ok) (hstorage : s.storage ≠ .held) {x : OpId}
    {op : Op} (hop : s.ops.lookup x = some op) : op.phase.inClosure = false := by
  by_contra hin
  rw [Bool.not_eq_false] at hin
  cases hlane : op.lane with
  | native => exact hstorage (h.native x op hop hlane (OpPhase.hasPointer_of_inClosure hin))
  | events =>
      rcases h.storage hstorage with hgone | hrank
      · have hnot := (hok x op hop).not_hasPointer ((h.gone hgone).returned x op hop).2
        rw [OpPhase.hasPointer_of_inClosure hin] at hnot
        cases hnot
      · have := h.events x op hop hlane hin
        omega

/-- The shutdown ends with the destroy block, and that leaves the storage empty. -/
theorem step_finished {s s' : Host} {l : Step} (hstep : s.step l = some s')
    (hbefore : s.shutdown.rank = 7) (hafter : s'.shutdown.rank = 8) : s'.storage ≠ .held := by
  have hsame : s'.shutdown = s.shutdown → False := fun heq => by
    rw [heq] at hafter
    omega
  have hwoken : ∀ {t : Host} (waker : Waker), t.shutdown = s.shutdown →
      s'.shutdown = (t.woken waker).shutdown → False := by
    intro t waker ht heq
    rcases woken_shutdown t waker with hw | ⟨hs, _⟩ | ⟨hs, _⟩
    · exact hsame (heq.trans (hw.trans ht))
    · rw [← ht, hs] at hbefore
      cases hbefore
    · rw [← ht, hs] at hbefore
      cases hbefore
  cases step_end hstep with
  | destroy => exact fun h => by cases h
  | destroyNothing env lane hhead hstorage =>
      intro h
      rw [show s.storage = .held from h] at hstorage
      cases hstorage
  | run env lane x op op' _ hhead hop hrun hspec => exact (hsame hspec.shutdown).elim
  | drain => cases hafter
  | wakeNothing waker => exact (hwoken waker rfl rfl).elim
  | woke env waker w => exact (@hwoken { s with world := w, lock := none } waker rfl rfl).elim
  | shutdown | closing | addDrain | addDestroy => cases hafter
  | returns x op =>
      refine (hsame ?_).elim
      unfold returns
      dsimp only
      split <;> rfl
  | submit | enqueue | cancel | take | wake | shutdownAgain | close | alert | release | deinit
  | deinitNothing => exact (hsame rfl).elim

theorem step_safe_gone {s s' : Host} {l : Step} (hok : ∀ x op, s.ops.lookup x = some op → op.Ok)
    (h : s.Safe) (hstep : s.step l = some s') (hgone : s'.gone = true) : s'.Deserted := by
  rcases step_gone hstep with heq | ⟨_, _, hreferenced, _, hops, hlanes, hreleased, hshutdown⟩
  · have hbefore : s.gone = true := heq ▸ hgone
    have hdeserted := h.gone hbefore
    exact step_deserted hok (h.released hdeserted.released) hdeserted hbefore hstep
  · have hdeserted := deserted_of_unreferenced hok hreferenced
    refine ⟨hreleased ▸ hdeserted.released, ?_, fun lane => hlanes ▸ hdeserted.queues lane,
      fun x op hop => hdeserted.returned x op (hops ▸ hop)⟩
    unfold shutdownRests
    rw [hshutdown]
    exact hdeserted.rests

/-- Every step keeps the pointer alive while it is used. -/
theorem step_safe {s s' : Host} {l : Step} (ho : s.Ordered)
    (hok : ∀ x op, s.ops.lookup x = some op → op.Ok) (h : s.Safe) (hstep : s.step l = some s') :
    s'.Safe where
  closing hrank := by
    rcases step_shutdown ho hstep with heq | ⟨heq, _, hone, _⟩
    · exact step_closed hstep (h.closing (heq ▸ hrank))
    · by_cases hr : s.shutdown.rank = 1
      · exact hone hr
      · exact step_closed hstep (h.closing (by omega))
  released hr := ((step_released hstep).2 hr).elim (fun h' => step_closed hstep (h.released h')) id
  lock hlock := by
    rcases step_storage hstep with ⟨hs, _⟩ | ⟨_, _, _, _, hnone, _⟩ | ⟨hs, hs', _⟩ |
      ⟨_, _, _, _, _, hnone⟩
    · rcases step_lock hstep with heq | heq | ⟨waker, _, _, hheld⟩
      · exact hs.trans (h.lock (heq ▸ hlock))
      · exact absurd heq hlock
      · exact hheld
    · exact absurd hnone hlock
    · -- a lock that is taken now was taken before, when the pointer was in the storage
      rcases step_lock hstep with heq | heq | ⟨waker, _, _, hheld⟩
      · rw [h.lock (heq ▸ hlock)] at hs
        cases hs
      · exact absurd heq hlock
      · exact hheld
    · exact absurd hnone hlock
  destroys := by
    rcases step_storage hstep with ⟨hs, hd⟩ | ⟨hs, hs', hd, _⟩ | ⟨hs, hs', hd⟩ | ⟨hs, hs', hd, _⟩
    · rw [hd, hs, h.destroys]
    · rw [hd, hs', h.destroys, hs]
      rfl
    · rw [hd, hs', h.destroys, hs]
      rfl
    · rw [hd, hs', h.destroys, hs]
      rfl
  gone := step_safe_gone hok h hstep
  storage hs := by
    have hkept : s.gone = true ∨ 7 ≤ s.shutdown.rank → s'.gone = true ∨ 7 ≤ s'.shutdown.rank := by
      rintro (hgone | hrank)
      · rcases step_gone hstep with heq | ⟨_, _, _, hgone', _⟩
        · exact Or.inl (heq.trans hgone)
        · exact Or.inl hgone'
      · rcases step_shutdown ho hstep with heq | ⟨heq, _⟩
        · exact Or.inr (heq ▸ hrank)
        · exact Or.inr (by omega)
    rcases step_storage hstep with ⟨heq, _⟩ | ⟨_, _, _, _, _, _, lane, hhead⟩ | ⟨heq, _⟩ |
      ⟨_, _, _, _, hgone, _⟩
    · exact hkept (h.storage (heq ▸ hs))
    · exact hkept (Or.inr
        ((ho.marked .native lane).mp (SerialQueue.mem_queue_of_head hhead)).2.ge)
    · exact hkept (h.storage (by simp [heq]))
    · exact Or.inl hgone
  finished hrank := by
    have hgone : s.storage ≠ .held → s'.storage ≠ .held := by
      rcases step_storage hstep with ⟨heq, _⟩ | ⟨_, heq, _⟩ | ⟨_, heq, _⟩ | ⟨_, heq, _⟩ <;>
        simp [heq]
    rcases step_shutdown ho hstep with heq | ⟨heq, _⟩
    · exact hgone (h.finished (heq ▸ hrank))
    · by_cases hr : 8 ≤ s.shutdown.rank
      · exact hgone (h.finished hr)
      · -- the destroy block has just ended
        exact step_finished hstep (by omega) (by omega)
  native x op' hop' hlane hp := by
    have hbefore := (step_ops hstep).hasPointer hop' hp
    have hheld : s.storage = .held := by
      rcases hbefore with hheld | ⟨op, hop, hl, hp'⟩
      · exact hheld
      · exact h.native x op hop (hl.trans hlane) hp'
    rcases step_storage hstep with ⟨heq, _⟩ | ⟨_, _, _, _, _, hops, lane, hhead⟩ | ⟨heq, _⟩ |
      ⟨_, _, _, _, hgone, _⟩
    · exact heq.trans hheld
    · -- the destroy block is at the head, and so is the operation
      rw [hops] at hop'
      have hmine := ho.head x op' hop' (OpPhase.active_of_hasPointer hp)
      obtain ⟨hl, _⟩ := (ho.marked .native lane).mp (SerialQueue.mem_queue_of_head hhead)
      rw [hlane, ← hl, hhead] at hmine
      cases Option.some.inj hmine
    · rw [heq] at hheld
      cases hheld
    · have hok' := (step_ops hstep).keeps Op.ok_new Op.Step.ok hok x op' hop'
      have hreturned := ((step_safe_gone hok h hstep hgone).returned x op' hop').2
      rw [hok'.not_hasPointer hreturned] at hp
      cases hp
  events x op' hop' hlane hp := by
    have hbefore := (step_ops hstep).inClosure hop' hlane hp
    have hrank : s.shutdown.rank < 2 ∨ (s.shutdown.rank ≤ 4 ∧ ∃ op, s.ops.lookup x = some op ∧
        op.lane = .events ∧ op.phase.active = true) := by
      rcases hbefore with hopen | ⟨op, hop, hl, hp'⟩
      · refine Or.inl (by_contra fun hnot => ?_)
        rw [h.closing (by omega)] at hopen
        cases hopen
      · exact Or.inr ⟨h.events x op hop hl hp', op, hop, hl,
          OpPhase.active_of_hasPointer (OpPhase.hasPointer_of_inClosure hp')⟩
    rcases step_shutdown ho hstep with heq | ⟨heq, _, _, hdrain⟩
    · rw [heq]
      rcases hrank with hr | hr <;> omega
    · rcases hrank with hr | ⟨hr, op, hop, hl, hactive⟩
      · omega
      · -- the drain does not go on while the operation is at the head
        have hne : s.shutdown.rank ≠ 4 := fun hfour => by
          have hmine := ho.head x op hop hactive
          rw [hl, hdrain hfour] at hmine
          cases Option.some.inj hmine
        omega

theorem safe_init : Safe {} := by
  constructor <;> simp [Shutdown.rank]

/-- What holds after every run: the lanes are in order, so are the operations, and the pointer is
    alive while it is used. -/
structure Sound (s : Host) : Prop where
  ordered : s.Ordered
  ops : ∀ x op, s.ops.lookup x = some op → op.Ok
  safe : s.Safe

theorem step_sound {s s' : Host} {l : Step} (h : s.Sound) (hstep : s.step l = some s') :
    s'.Sound where
  ordered := step_ordered h.ordered hstep
  ops := (step_ops hstep).keeps Op.ok_new Op.Step.ok h.ops
  safe := step_safe h.ordered h.ops h.safe hstep

theorem sound_init : Sound {} := ⟨ordered_init, fun x op hop => by simp at hop, safe_init⟩

theorem run_sound {ls : List Step} {s : Host} (hrun : Lts.exec step {} ls = some s) : s.Sound :=
  Lts.exec_invariant' Sound sound_init (fun _ _ _ h hstep => step_sound h hstep) ls s hrun

/-! ## Behind the destroy block -/

/-- The block of `x` was added after the destroy block. -/
def Behind (s : Host) (x : OpId) : Prop := (s.lanes .native).Before .destroy (.op x)

/-- A block is behind the destroy block from the moment it is added. -/
theorem step_behind {s s' : Host} {l : Step} (h : s.step l = some s') {x : OpId} (hx : s'.Behind x) :
    s.Behind x ∨ ∃ op, s.ops.lookup x = some op ∧ op.phase = .submitted := by
  have hpop : ∀ {t : Host} {lane : Lane}, t.lanes = s.lanes → (t.pop lane).Behind x → s.Behind x := by
    intro t lane ht hb
    unfold Behind at hb
    rw [pop_lanes, ht] at hb
    split at hb
    · exact SerialQueue.before_pop.mp hb
    · exact hb
  have hasync : ∀ {t : Host} {lane : Lane} {b : Block}, t.lanes = s.lanes →
      (t.async lane b).Behind x → s.Behind x ∨ b = .op x := by
    intro t lane b ht hb
    unfold Behind at hb
    rw [async_lanes, ht] at hb
    split at hb
    · exact (SerialQueue.before_async hb).imp_right fun hnew => hnew.1.symm
    · exact Or.inl hb
  cases step_end h with
  | enqueue y op hop hphase =>
      rcases hasync (setOp_lanes s y _) hx with hb | heq
      · exact Or.inl hb
      · obtain rfl := Block.op.inj heq
        exact Or.inr ⟨op, hop, hphase⟩
  | run env lane y op op' _ hhead hop hrun hspec =>
      refine Or.inl ?_
      unfold Behind at hx
      rw [hspec.lanes] at hx
      split at hx
      · exact @hpop s op.lane rfl hx
      · exact hx
  | drain => exact Or.inl (hpop (by rfl) hx)
  | destroy => exact Or.inl (hpop (by rfl) hx)
  | destroyNothing => exact Or.inl (hpop (by rfl) hx)
  | addDrain => exact Or.inl ((hasync (by rfl) hx).resolve_right (by simp))
  | addDestroy => exact Or.inl ((hasync (by rfl) hx).resolve_right (by simp))
  | wakeNothing waker =>
      unfold Behind at hx
      rw [woken_lanes] at hx
      exact Or.inl hx
  | woke env waker =>
      unfold Behind at hx
      rw [woken_lanes] at hx
      exact Or.inl hx
  | returns y op =>
      refine Or.inl ?_
      unfold returns at hx
      dsimp only at hx
      split at hx <;> exact hx
  | submit | cancel | take | wake | shutdown | shutdownAgain | closing | close | alert | release
  | deinit | deinitNothing => exact Or.inl hx

/-- A block behind the destroy block finds no pointer. -/
def BehindRefused (s : Host) : Prop :=
  ∀ x op, s.ops.lookup x = some op → s.Behind x → op.runs = 0 ∧ op.phase ≠ .holding

theorem RunOp.refused {s s' : Host} {x : OpId} {op op' : Op} (hspec : RunOp s s' x op op')
    (hstorage : op.phase = .begun → s.storage ≠ .held) (h : op.runs = 0 ∧ op.phase ≠ .holding) :
    op'.runs = 0 ∧ op'.phase ≠ .holding := by
  have hholds := hspec.holds
  cases hspec.run with
  | hold hbegun => exact absurd (hholds hbegun rfl) (hstorage hbegun)
  | start hholding => exact absurd hholding h.2
  | skip hholding => exact absurd hholding h.2
  | refuse | begin | shutDown | wait | answer | report | close | yield | decide | resume | finish =>
      exact ⟨h.1, by simp [Op.yield]⟩

theorem touch_refused {op op' : Op} (htouch : op.Touch op')
    (h : op.runs = 0 ∧ op.phase ≠ .holding) : op'.runs = 0 ∧ op'.phase ≠ .holding := by
  cases htouch with
  | enqueue | closed => exact ⟨h.1, by simp [Op.yield]⟩
  | cancel | woken | returns => exact h

theorem step_behindRefused {s s' : Host} {l : Step} (hs : s.Sound) (h : s.BehindRefused)
    (hstep : s.step l = some s') : s'.BehindRefused := by
  intro x op' hop' hx
  have ho := hs.ordered
  have hops := step_ops hstep
  rcases step_behind hstep hx with hb | ⟨op, hop, hphase⟩
  · rcases hops.op_before hop' with ⟨_, heq⟩ | ⟨op, hop, rfl | hspec | htouch⟩
    · rw [heq]
      exact ⟨rfl, by simp⟩
    · exact h x op' hop hb
    · refine hspec.refused (fun hbegun => ?_) (h x op hop hb)
      -- the operation is at the head of the native lane, so the destroy block is done
      have hactive : op.phase.active = true := by rw [hbegun]; rfl
      have hlane : op.lane = .native := by
        rcases SerialQueue.mem_blocks.mp (hb.subset (by simp) : .op x ∈ _) with hin | hin
        · exact ((ho.done_iff hop _).mp hin).1
        · exact ((ho.queued_iff hop _).mp hin).1
      have hdone := SerialQueue.done_of_before_head (ho.nodup .native) hb
        (hlane ▸ ho.head x op hop hactive)
      exact hs.safe.finished ((ho.passed .native .native).mp hdone).2
    · exact touch_refused htouch (h x op hop hb)
  · have hnew : op.runs = 0 ∧ op.phase ≠ .holding := by
      have hp := (hs.ops x op hop).phase
      rw [hphase] at hp
      exact ⟨hp.1, by simp [hphase]⟩
    obtain ⟨op₁, hop₁, hmoved⟩ := hops.op hop
    obtain rfl := Option.some.inj (hop'.symm.trans hop₁)
    rcases hmoved with rfl | hspec | htouch
    · exact hnew
    · exact hspec.refused (fun hbegun => by simp [hphase] at hbegun) hnew
    · exact touch_refused htouch hnew

theorem run_behindRefused {ls : List Step} {s : Host} (hrun : Lts.exec step {} ls = some s) :
    s.BehindRefused := by
  have hinv := Lts.exec_invariant' (fun s : Host => s.Sound ∧ s.BehindRefused)
    ⟨sound_init, fun x op hop => by simp at hop⟩
    (fun s l s' h hstep => ⟨step_sound h.1 hstep, step_behindRefused h.1 h.2 hstep⟩) ls s hrun
  exact hinv.2

/-! ## The result -/

/-- Once the pointer has left the storage, only the alert thread and the destroy call itself touch
    the session, and then nobody. -/
theorem step_world {s s' : Host} {l : Step} (h : s.Sound) (hstorage : s.storage ≠ .held)
    (hstep : s.step l = some s') : s'.world = s.world ∨
      (s.storage = .taken ∧ ((∃ env alert, l = .alert env alert) ∨ s'.storage = .destroyed)) := by
  cases step_end hstep with
  | run env lane x op op' _ hhead hop hrun hspec =>
      refine Or.inl (hspec.world (Bool.eq_false_iff.mpr fun huses => ?_))
      have hnot := h.safe.not_inClosure h.ops hstorage hop
      rw [OpPhase.inClosure_of_usesPointer huses] at hnot
      cases hnot
  | woke env waker w answer hlock => exact absurd (h.safe.lock (by simp [hlock])) hstorage
  | destroy env lane w hhead htaken => exact Or.inr ⟨htaken, Or.inr rfl⟩
  | deinit w _ _ hheld => exact absurd hheld hstorage
  | alert env alert w hnot =>
      cases hcase : s.storage with
      | held => exact absurd hcase hstorage
      | taken => exact Or.inr ⟨rfl, Or.inl ⟨env, alert, rfl⟩⟩
      | destroyed => exact absurd hcase hnot
  | wakeNothing waker => exact Or.inl (woken_world s waker)
  | returns x op =>
      refine Or.inl ?_
      unfold returns
      dsimp only
      split <;> rfl
  | submit | enqueue | cancel | drain | take | destroyNothing | wake | shutdown | shutdownAgain
  | closing | addDrain | addDestroy | close | release | deinitNothing => exact Or.inl rfl

/-- **The native session outlives its calls.** After every run `ltkit_session_destroy` has been
    called at most once. Once the pointer has left the storage for it, no wake is under way, no
    closure is between its first and its last native call, no thread waits in the session, and
    no step makes a call any more: apart from the alert thread, which the destroy call ends,
    the session stays as it is. An operation whose block is behind the destroy block never runs
    its closure: when its turn has come it has an outcome, `sessionShutDown` or, if it was
    cancelled, a `CancellationError`. -/
theorem session_outlives_calls {ls : List Step} {s : Host}
    (hrun : Lts.exec step {} ls = some s) :
    s.destroys ≤ 1 ∧ (s.destroys = 1 ↔ s.storage = .destroyed) ∧
    (s.storage ≠ .held → s.lock = none ∧
      (∀ x op, s.ops.lookup x = some op → op.phase.inClosure = false) ∧
      (∀ c, s.world.calls c = none) ∧
      ∀ l s', s.step l = some s' → s'.world = s.world ∨
        (s.storage = .taken ∧ ((∃ env alert, l = .alert env alert) ∨ s'.storage = .destroyed))) ∧
    (∀ x op, s.ops.lookup x = some op → s.Behind x → op.runs = 0 ∧
      (.op x ∈ (s.lanes op.lane).done → op.outcome.isSome = true) ∧
      ∀ o, op.outcome = some o →
        o = .sessionShutDown ∨ (o = .cancellationError ∧ op.cancelled = true)) := by
  have hs := run_sound hrun
  have hcalling := run_calling hrun
  have hdestroys := hs.safe.destroys
  refine ⟨?_, ?_, fun hstorage => ⟨?_, fun x op hop => ?_, fun c => ?_, fun l s' hstep => ?_⟩,
    fun x op hop hx => ?_⟩
  · rw [hdestroys]
    split <;> decide
  · rw [hdestroys]
    split <;> simp [*]
  · by_contra hlock
    exact hstorage (hs.safe.lock hlock)
  · exact hs.safe.not_inClosure hs.ops hstorage hop
  · cases c with
    | zero => exact hcalling.wakers
    | succ x =>
        have hnone : s.waitingApi x = none := by
          cases hop : s.ops.lookup x with
          | none => rw [waitingApi, hop, Option.bind_none]
          | some op =>
              have hnot := hs.safe.not_inClosure hs.ops hstorage hop
              have hphase : op.phase ≠ .waiting := fun hw => by
                rw [hw] at hnot
                cases hnot
              rw [waitingApi, hop, Option.bind_some, Op.waitingApi, if_neg hphase]
        simpa [hnone] using hcalling.ops x
  · exact step_world hs hstorage hstep
  · have hruns := (run_behindRefused hrun x op hop hx).1
    refine ⟨hruns, fun hdone => ?_, fun o ho => ?_⟩
    · exact (hs.ops x op hop).outcome_iff.mpr
        (Or.inr ((hs.ordered.done_iff hop op.lane).mp hdone).2)
    have hfits := (hs.ops x op hop).fits ho
    cases o with
    | cancellationError => exact Or.inr ⟨rfl, hfits.1⟩
    | sessionShutDown => exact Or.inl rfl
    | result result =>
        have hone : op.runs = 1 := hfits.1
        omega

/-- A torrent is added, the session is shut down twice, and a last call comes too late. -/
def shutDownRun : List Step :=
  [.submit 0 .native .mutation (.add sampleRequest), .enqueue 0, .shutdown, .advance,
    .wake .shutdown, .woke sampleEnvironment, .advance, .run sampleEnvironment .events,
    .wake .shutdown, .woke sampleEnvironment, .advance, .shutdown,
    .submit 1 .native .mutation (.remove "a" false), .enqueue 1] ++
    List.replicate 14 (.run sampleEnvironment .native)

/-- The session is destroyed once, and the last call does not run. -/
theorem shutDownRun_refuses :
    (after shutDownRun).destroys = 1 ∧ ∃ op, (after shutDownRun).ops.lookup 1 = some op ∧
      op.runs = 0 ∧ op.outcome = some .sessionShutDown := by
  have hlookup : ((after shutDownRun).ops.lookup 1).any
      (fun op => op.outcome.isSome && !op.cancelled) = true := by decide +kernel
  obtain ⟨op, hop, hflags⟩ := (Option.any_eq_true _ _).mp hlookup
  simp only [Bool.and_eq_true, Bool.not_eq_true'] at hflags
  obtain ⟨o, ho⟩ := Option.isSome_iff_exists.mp hflags.1
  have hrun : Lts.exec step {} shutDownRun = some (after shutDownRun) :=
    exec_after (by decide +kernel)
  obtain ⟨_, hdestroys, _, hbehind⟩ := session_outlives_calls hrun
  obtain ⟨hruns, _, houtcome⟩ :=
    hbehind 1 op hop (show List.Sublist _ (((after shutDownRun).lanes .native).blocks) by
      decide +kernel)
  refine ⟨hdestroys.mpr (by decide +kernel), op, hop, hruns, ?_⟩
  rcases houtcome o ho with rfl | ⟨_, hcancelled⟩
  · exact ho
  · exact absurd hcancelled (by simp [hflags.2])

end Host

end LibtorrentKit
