/-
  Blocks and phases.

  `Host.Ordered` ties the two lanes to the operations and to the shutdown: a block is in its
  lane from the moment it is added, it is done when its operation is, and only the block at
  the head of a lane is being executed. `run_ordered`: it holds after every run.
-/
import LibtorrentKit.Swift.Operations

namespace LibtorrentKit

/-- How far the shutdown is. -/
def Shutdown.rank : Shutdown → Nat
  | .idle => 0
  | .started => 1
  | .closing => 2
  | .closed => 3
  | .draining => 4
  | .waking => 5
  | .woken => 6
  | .destroying => 7
  | .finished => 8

/-- The block that the shutdown adds to a lane. -/
def Lane.mark : Lane → Block
  | .events => .drain
  | .native => .destroy

/-- How far the shutdown is while this block is in its lane. -/
def Lane.markRank : Lane → Nat
  | .events => 4
  | .native => 7

namespace Host

/-- The lanes agree with the operations and with the shutdown. -/
structure Ordered (s : Host) : Prop where
  nodup : ∀ lane, (s.lanes lane).blocks.Nodup
  queued : ∀ x lane, .op x ∈ (s.lanes lane).queue ↔
    ∃ op, s.ops.lookup x = some op ∧ op.lane = lane ∧ op.phase.inQueue = true
  done : ∀ x lane, .op x ∈ (s.lanes lane).done ↔
    ∃ op, s.ops.lookup x = some op ∧ op.lane = lane ∧ op.phase = .finished
  head : ∀ x op, s.ops.lookup x = some op → op.phase.active = true →
    (s.lanes op.lane).queue.head? = some (.op x)
  marked : ∀ l lane, l.mark ∈ (s.lanes lane).queue ↔ lane = l ∧ s.shutdown.rank = l.markRank
  passed : ∀ l lane, l.mark ∈ (s.lanes lane).done ↔ lane = l ∧ l.markRank < s.shutdown.rank

theorem ordered_init : Ordered {} := by
  constructor <;> simp [SerialQueue.blocks, Shutdown.rank]
  intro l hl
  cases l <;> simp [Lane.markRank] at hl

/-- A step that touches no lane, no phase, and the shutdown only where it adds no block. -/
theorem Ordered.frame {s s' : Host} (h : s.Ordered) (hlanes : s'.lanes = s.lanes)
    (hops : s'.ops = s.ops)
    (hshutdown : s'.shutdown = s.shutdown ∨ (s.shutdown.rank ≤ 3 ∧ s'.shutdown.rank ≤ 3) ∨
      (s.shutdown.rank = 5 ∧ s'.shutdown.rank = 6)) : s'.Ordered where
  nodup lane := hlanes ▸ h.nodup lane
  queued x lane := hlanes ▸ hops ▸ h.queued x lane
  done x lane := hlanes ▸ hops ▸ h.done x lane
  head x op hop := hlanes ▸ h.head x op (hops ▸ hop)
  marked l lane := by
    rw [hlanes, h.marked]
    refine and_congr_right fun _ => ?_
    rcases hshutdown with heq | _ | _
    · rw [heq]
    · cases l <;> simp only [Lane.markRank] <;> omega
    · cases l <;> simp only [Lane.markRank] <;> omega
  passed l lane := by
    rw [hlanes, h.passed]
    refine and_congr_right fun _ => ?_
    rcases hshutdown with heq | _ | _
    · rw [heq]
    · cases l <;> simp only [Lane.markRank] <;> omega
    · cases l <;> simp only [Lane.markRank] <;> omega

@[simp] theorem mark_ne_op (l : Lane) (x : OpId) : l.mark ≠ .op x := by
  cases l <;> simp [Lane.mark]

@[simp] theorem op_ne_mark (l : Lane) (x : OpId) : Block.op x ≠ l.mark := by
  cases l <;> simp [Lane.mark]

@[simp] theorem mark_inj {l l' : Lane} : l.mark = l'.mark ↔ l = l' := by
  cases l <;> cases l' <;> simp [Lane.mark]

/-- One operation changes, and its block with it; all other blocks stay where they are. -/
theorem Ordered.set {s s' : Host} {x : OpId} {op : Op} (h : s.Ordered)
    (hops : s'.ops = s.ops.insert x op) (hshutdown : s'.shutdown = s.shutdown)
    (hnodup : ∀ lane, (s'.lanes lane).blocks.Nodup)
    (hqueued : ∀ lane, .op x ∈ (s'.lanes lane).queue ↔ op.lane = lane ∧ op.phase.inQueue = true)
    (hdone : ∀ lane, .op x ∈ (s'.lanes lane).done ↔ op.lane = lane ∧ op.phase = .finished)
    (hactive : op.phase.active = true → (s'.lanes op.lane).queue.head? = some (.op x))
    (hothers : ∀ b lane, b ≠ .op x → (b ∈ (s'.lanes lane).queue ↔ b ∈ (s.lanes lane).queue) ∧
      (b ∈ (s'.lanes lane).done ↔ b ∈ (s.lanes lane).done))
    (hheads : ∀ y lane, y ≠ x → (s.lanes lane).queue.head? = some (.op y) →
      (s'.lanes lane).queue.head? = some (.op y)) : s'.Ordered := by
  have hlookup : ∀ y, y ≠ x → s'.ops.lookup y = s.ops.lookup y := fun y hyx => by
    rw [hops, Finmap.lookup_insert_of_ne _ hyx]
  have hself : s'.ops.lookup x = some op := by rw [hops, Finmap.lookup_insert]
  have hne : ∀ y, y ≠ x → Block.op y ≠ .op x := fun y hyx heq => hyx (Block.op.inj heq)
  constructor
  · exact hnodup
  · intro y lane
    by_cases hyx : y = x
    · subst hyx
      simp [hqueued, hself]
    · rw [(hothers _ lane (hne y hyx)).1, h.queued, hlookup y hyx]
  · intro y lane
    by_cases hyx : y = x
    · subst hyx
      simp [hdone, hself]
    · rw [(hothers _ lane (hne y hyx)).2, h.done, hlookup y hyx]
  · intro y op' hy hact
    by_cases hyx : y = x
    · subst hyx
      obtain rfl := Option.some.inj (hself.symm.trans hy)
      exact hactive hact
    · exact hheads y _ hyx (h.head y op' (hlookup y hyx ▸ hy) hact)
  · exact fun l lane => by rw [(hothers l.mark lane (by simp)).1, hshutdown, h.marked]
  · exact fun l lane => by rw [(hothers l.mark lane (by simp)).2, hshutdown, h.passed]

theorem Ordered.queued_iff {s : Host} (h : s.Ordered) {x : OpId} {op : Op}
    (hop : s.ops.lookup x = some op) (lane : Lane) :
    .op x ∈ (s.lanes lane).queue ↔ op.lane = lane ∧ op.phase.inQueue = true := by
  simp [h.queued, hop]

theorem Ordered.done_iff {s : Host} (h : s.Ordered) {x : OpId} {op : Op}
    (hop : s.ops.lookup x = some op) (lane : Lane) :
    .op x ∈ (s.lanes lane).done ↔ op.lane = lane ∧ op.phase = .finished := by
  simp [h.done, hop]

/-- One operation changes while its block stays where it is. -/
theorem Ordered.op {s s' : Host} {x : OpId} {op op' : Op} (h : s.Ordered)
    (hop : s.ops.lookup x = some op) (hlanes : s'.lanes = s.lanes)
    (hops : s'.ops = s.ops.insert x op') (hshutdown : s'.shutdown = s.shutdown)
    (hlane : op'.lane = op.lane) (hqueue : op'.phase.inQueue = op.phase.inQueue)
    (hfinished : op'.phase = .finished ↔ op.phase = .finished)
    (hactive : op'.phase.active = true → (s.lanes op.lane).queue.head? = some (.op x)) :
    s'.Ordered := by
  refine h.set hops hshutdown (fun lane => hlanes ▸ h.nodup lane) (fun lane => ?_) (fun lane => ?_)
    (fun hact => ?_) (fun b lane _ => by rw [hlanes]; exact ⟨Iff.rfl, Iff.rfl⟩)
    fun y lane _ hhead => hlanes ▸ hhead
  · rw [hlanes, h.queued_iff hop, hlane, hqueue]
  · rw [hlanes, h.done_iff hop, hlane, hfinished]
  · rw [hlanes, hlane]
    exact hactive hact

theorem Ordered.submit {s s' : Host} {x : OpId} {op : Op} (h : s.Ordered)
    (hnew : s.ops.lookup x = none) (hlanes : s'.lanes = s.lanes)
    (hops : s'.ops = s.ops.insert x op) (hshutdown : s'.shutdown = s.shutdown)
    (hphase : op.phase = .submitted) : s'.Ordered := by
  refine h.set hops hshutdown (fun lane => hlanes ▸ h.nodup lane) (fun lane => ?_) (fun lane => ?_)
    (fun hact => ?_) (fun b lane _ => by rw [hlanes]; exact ⟨Iff.rfl, Iff.rfl⟩)
    fun y lane _ hhead => hlanes ▸ hhead
  · simp [hlanes, h.queued, hnew, hphase, OpPhase.inQueue]
  · simp [hlanes, h.done, hnew, hphase]
  · rw [hphase] at hact
    cases hact

/-- A block is added to a lane. -/
theorem Ordered.nodup_async {s : Host} (h : s.Ordered) {lane : Lane} {b : Block}
    (hqueue : b ∉ (s.lanes lane).queue) (hdone : b ∉ (s.lanes lane).done) (l : Lane) :
    ((s.async lane b).lanes l).blocks.Nodup := by
  rw [async_lanes]
  split
  · next hl =>
      subst hl
      rw [SerialQueue.blocks_async]
      refine List.nodup_append.mpr ⟨h.nodup l, List.nodup_singleton b, fun a ha c hc heq => ?_⟩
      obtain rfl := List.mem_singleton.mp hc
      subst heq
      exact (SerialQueue.mem_blocks.mp ha).elim hdone hqueue
  · exact h.nodup l

theorem mem_async {s : Host} {lane l : Lane} {b c : Block} :
    (c ∈ ((s.async lane b).lanes l).queue ↔ c ∈ (s.lanes l).queue ∨ (l = lane ∧ c = b)) ∧
      (c ∈ ((s.async lane b).lanes l).done ↔ c ∈ (s.lanes l).done) := by
  rw [async_lanes]
  split
  · next hl => simp [hl]
  · next hl => simp [hl]

theorem head_async {s : Host} {lane l : Lane} {b c : Block}
    (h : (s.lanes l).queue.head? = some c) :
    ((s.async lane b).lanes l).queue.head? = some c := by
  rw [async_lanes]
  split
  · exact SerialQueue.head_async h
  · exact h

theorem Ordered.enqueue {s : Host} {x : OpId} {op : Op} (h : s.Ordered)
    (hop : s.ops.lookup x = some op) (hphase : op.phase = .submitted) :
    ((s.setOp x { op with phase := .queued }).async op.lane (.op x)).Ordered := by
  have hout : ∀ lane, .op x ∉ (s.lanes lane).queue ∧ .op x ∉ (s.lanes lane).done := by
    intro lane
    rw [h.queued_iff hop, h.done_iff hop, hphase]
    simp [OpPhase.inQueue]
  refine h.set rfl rfl (h.nodup_async (hout op.lane).1 (hout op.lane).2) (fun lane => ?_)
    (fun lane => ?_) (fun hact => by cases hact) (fun b lane hb => ?_)
    fun y lane _ hhead => head_async hhead
  · rw [mem_async.1]
    simp [(hout lane).1, OpPhase.inQueue, eq_comm]
  · rw [mem_async.2]
    simp [(hout lane).2]
  · rw [mem_async.1, mem_async.2]
    simp [hb]

/-- The block at the head of a lane is done. -/
theorem Ordered.nodup_pop {s : Host} (h : s.Ordered) (lane l : Lane) :
    ((s.pop lane).lanes l).blocks.Nodup := by
  rw [pop_lanes]
  split
  · rw [SerialQueue.blocks_pop]
    exact h.nodup l
  · exact h.nodup l

theorem Ordered.mem_pop {s : Host} (h : s.Ordered) {lane l : Lane} {b c : Block}
    (hhead : (s.lanes lane).queue.head? = some b) :
    (c ∈ ((s.pop lane).lanes l).queue ↔ c ∈ (s.lanes l).queue ∧ ¬ (l = lane ∧ c = b)) ∧
      (c ∈ ((s.pop lane).lanes l).done ↔ c ∈ (s.lanes l).done ∨ (l = lane ∧ c = b)) := by
  rw [pop_lanes]
  split
  · next hl =>
      subst hl
      simp [SerialQueue.mem_queue_pop (h.nodup l) hhead, SerialQueue.mem_done_pop hhead]
  · next hl => simp [hl]

/-- The heads of the other lanes stay. -/
theorem head_pop {s : Host} {lane l : Lane} {b c : Block}
    (hhead : (s.lanes lane).queue.head? = some b) (hc : (s.lanes l).queue.head? = some c)
    (hne : c ≠ b) : ((s.pop lane).lanes l).queue.head? = some c := by
  rw [pop_lanes]
  split
  · next hl =>
      subst hl
      exact absurd (Option.some.inj (hc.symm.trans hhead)) hne
  · exact hc

theorem Ordered.finish {s : Host} {x : OpId} {op op' : Op} (h : s.Ordered)
    (hop : s.ops.lookup x = some op) (hhead : (s.lanes op.lane).queue.head? = some (.op x))
    (hlane : op'.lane = op.lane) (hphase : op'.phase = .finished) :
    ((s.setOp x op').pop op.lane).Ordered := by
  have hmem : ∀ b lane,
      (b ∈ (((s.setOp x op').pop op.lane).lanes lane).queue ↔ b ∈ (s.lanes lane).queue ∧
        ¬ (lane = op.lane ∧ b = .op x)) ∧
      (b ∈ (((s.setOp x op').pop op.lane).lanes lane).done ↔ b ∈ (s.lanes lane).done ∨
        (lane = op.lane ∧ b = .op x)) := fun b lane => h.mem_pop hhead
  have hin : op.phase.inQueue = true :=
    ((h.queued_iff hop op.lane).mp (SerialQueue.mem_queue_of_head hhead)).2
  have hnot : op.phase ≠ .finished := fun heq => by
    rw [heq] at hin
    cases hin
  refine h.set rfl rfl (h.nodup_pop op.lane) (fun lane => ?_) (fun lane => ?_) (fun hact => ?_)
    (fun b lane hb => ?_) fun y lane hyx hy => ?_
  · rw [(hmem _ lane).1, h.queued_iff hop, hlane, hphase, @eq_comm _ lane]
    simp only [OpPhase.inQueue, Bool.false_eq_true, and_false, iff_false, not_and, not_not, and_true]
    exact fun h => h.1
  · rw [(hmem _ lane).2, h.done_iff hop, hlane, hphase]
    simp [hnot, eq_comm]
  · rw [hphase] at hact
    cases hact
  · rw [(hmem b lane).1, (hmem b lane).2]
    simp [hb]
  · exact head_pop (s := s) hhead hy fun heq => hyx (Block.op.inj heq)

/-! ## Every step -/

theorem Ordered.run_op {s s' : Host} {x : OpId} {op op' : Op} (h : s.Ordered)
    (hop : s.ops.lookup x = some op) {lane : Lane}
    (hhead : (s.lanes lane).queue.head? = some (.op x)) (hspec : RunOp s s' x op op') :
    s'.Ordered := by
  obtain ⟨hlane, hin⟩ := (h.queued_iff hop lane).mp (SerialQueue.mem_queue_of_head hhead)
  subst hlane
  by_cases hphase : op'.phase = .finished
  · refine (h.finish hop hhead hspec.run.kept.1 hphase).frame ?_ hspec.ops (Or.inl hspec.shutdown)
    rw [hspec.lanes, if_pos hphase]
    rfl
  · have hactive := hspec.run.active hphase
    have hnot : op.phase ≠ .finished := fun heq => by
      rw [heq] at hin
      cases hin
    refine h.op hop ?_ hspec.ops hspec.shutdown hspec.run.kept.1 ?_ (iff_of_false hphase hnot)
      fun _ => hhead
    · rw [hspec.lanes, if_neg hphase]
    · rw [hin]
      exact OpPhase.inQueue_of_active hactive

theorem woken_ordered {s : Host} (h : s.Ordered) (waker : Waker) : (s.woken waker).Ordered := by
  cases waker with
  | handler x =>
      simp only [woken]
      split
      · next op hop =>
          split
          · exact h.op hop rfl rfl rfl rfl rfl Iff.rfl (h.head x op hop)
          · exact h
      · exact h
  | closer => exact h.frame rfl rfl (Or.inl rfl)
  | closing x =>
      simp only [woken]
      split
      · next op hop =>
          split
          · next response hphase =>
              have hhead := h.head x op hop (by rw [hphase]; rfl)
              exact h.op hop rfl rfl rfl rfl (by rw [hphase]; rfl) (by simp [hphase, Op.yield])
                fun _ => hhead
          · exact h
      · exact h
  | shutdown =>
      simp only [woken]
      split
      · next hs => exact h.frame rfl rfl (Or.inr (Or.inl (by simp [hs, Shutdown.rank])))
      · next hs => exact h.frame rfl rfl (Or.inr (Or.inr (by simp [hs, Shutdown.rank])))
      · exact h

/-- A block of the shutdown is added, or done. -/
theorem Ordered.mark {s s' : Host} (h : s.Ordered) (hops : s'.ops = s.ops)
    (hnodup : ∀ lane, (s'.lanes lane).blocks.Nodup)
    (hblocks : ∀ x lane, (.op x ∈ (s'.lanes lane).queue ↔ .op x ∈ (s.lanes lane).queue) ∧
      (.op x ∈ (s'.lanes lane).done ↔ .op x ∈ (s.lanes lane).done))
    (hheads : ∀ x lane, (s.lanes lane).queue.head? = some (.op x) →
      (s'.lanes lane).queue.head? = some (.op x))
    (hmarks : ∀ l lane,
      (l.mark ∈ (s'.lanes lane).queue ↔ lane = l ∧ s'.shutdown.rank = l.markRank) ∧
      (l.mark ∈ (s'.lanes lane).done ↔ lane = l ∧ l.markRank < s'.shutdown.rank)) : s'.Ordered where
  nodup := hnodup
  queued x lane := by rw [(hblocks x lane).1, hops, h.queued]
  done x lane := by rw [(hblocks x lane).2, hops, h.done]
  head x op hop hact := hheads x op.lane (h.head x op (hops ▸ hop) hact)
  marked l lane := (hmarks l lane).1
  passed l lane := (hmarks l lane).2

/-- The shutdown adds its block to a lane. -/
theorem Ordered.add_mark {s s' : Host} {m : Lane} (h : s.Ordered)
    (hrank : s.shutdown.rank + 1 = m.markRank) (hlanes : s'.lanes = (s.async m m.mark).lanes)
    (hops : s'.ops = s.ops) (hrank' : s'.shutdown.rank = m.markRank) : s'.Ordered := by
  have hmem : ∀ b lane, _ := fun b lane => @mem_async s m lane m.mark b
  refine h.mark hops (fun lane => ?_) (fun x lane => ?_)
    (fun x lane hx => hlanes ▸ head_async hx) fun l lane => ?_
  · rw [hlanes]
    refine h.nodup_async (fun hin => ?_) (fun hin => ?_) lane
    · have := ((h.marked m m).mp hin).2
      omega
    · have := ((h.passed m m).mp hin).2
      omega
  · rw [hlanes, (hmem _ lane).1, (hmem _ lane).2]
    simp
  · rw [hlanes, (hmem _ lane).1, (hmem _ lane).2, h.marked, h.passed, hrank', mark_inj]
    cases l <;> cases m <;> cases lane <;> simp [Lane.markRank] at hrank ⊢ <;> omega

/-- The block that the shutdown has added to a lane is done. -/
theorem Ordered.pass_mark {s s' : Host} {m : Lane} (h : s.Ordered)
    (hrank : s.shutdown.rank = m.markRank) (hhead : (s.lanes m).queue.head? = some m.mark)
    (hlanes : s'.lanes = (s.pop m).lanes) (hops : s'.ops = s.ops)
    (hrank' : s'.shutdown.rank = m.markRank + 1) : s'.Ordered := by
  have hmem : ∀ b lane, _ := fun b lane => @Ordered.mem_pop s h m lane m.mark b hhead
  refine h.mark hops (fun lane => hlanes ▸ h.nodup_pop m lane) (fun x lane => ?_)
    (fun x lane hx => hlanes ▸ head_pop hhead hx (by simp)) fun l lane => ?_
  · rw [hlanes, (hmem _ lane).1, (hmem _ lane).2]
    simp
  · rw [hlanes, (hmem _ lane).1, (hmem _ lane).2, h.marked, h.passed, hrank, hrank', mark_inj]
    cases l <;> cases m <;> cases lane <;> simp [Lane.markRank]

theorem Ordered.close {s : Host} (h : s.Ordered) : s.close.Ordered :=
  h.frame rfl rfl (Or.inl rfl)

theorem step_ordered {s s' : Host} {l : Step} (h : s.Ordered) (hstep : s.step l = some s') :
    s'.Ordered := by
  cases step_end hstep with
  | submit x lane semantics api hnew => exact h.submit hnew rfl rfl rfl rfl
  | enqueue x op hop hphase => exact h.enqueue hop hphase
  | cancel x op hop => exact h.op hop rfl rfl rfl rfl rfl Iff.rfl (h.head x op hop)
  | run env lane x op op' _ hhead hop hrun hspec => exact h.run_op hop hhead hspec
  | drain env lane hhead =>
      obtain ⟨rfl, hrank⟩ := (h.marked .events lane).mp (SerialQueue.mem_queue_of_head hhead)
      exact @Ordered.pass_mark s _ .events h hrank hhead rfl rfl rfl
  | destroy env lane w hhead =>
      obtain ⟨rfl, hrank⟩ := (h.marked .native lane).mp (SerialQueue.mem_queue_of_head hhead)
      exact @Ordered.pass_mark s _ .native h hrank hhead rfl rfl rfl
  | destroyNothing env lane hhead =>
      obtain ⟨rfl, hrank⟩ := (h.marked .native lane).mp (SerialQueue.mem_queue_of_head hhead)
      exact @Ordered.pass_mark s _ .native h hrank hhead rfl rfl rfl
  | wakeNothing waker => exact woken_ordered h waker
  | woke env waker =>
      refine woken_ordered ?_ waker
      exact h.frame rfl rfl (Or.inl rfl)
  | returns x op hop =>
      have hset : (s.setOp x { op with returned := true }).Ordered :=
        h.op hop rfl rfl rfl rfl rfl Iff.rfl (h.head x op hop)
      unfold returns
      dsimp only
      split
      · exact hset.close
      · exact hset
  | close => exact h.close
  | shutdown _ hidle => exact h.frame rfl rfl (Or.inr (Or.inl (by simp [hidle, Shutdown.rank])))
  | shutdownAgain => exact h
  | closing hs => exact h.frame rfl rfl (Or.inr (Or.inl (by simp [hs, Shutdown.rank])))
  | addDrain hs => exact @Ordered.add_mark s _ .events h (by rw [hs]; rfl) rfl rfl rfl
  | addDestroy hs => exact @Ordered.add_mark s _ .native h (by rw [hs]; rfl) rfl rfl rfl
  | take | wake | alert | release | deinit | deinitNothing => exact h.frame rfl rfl (Or.inl rfl)

/-- After every run the lanes agree with the operations and with the shutdown. -/
theorem run_ordered {ls : List Step} {s : Host} (hrun : Lts.exec step {} ls = some s) :
    s.Ordered :=
  Lts.exec_invariant' Ordered ordered_init (fun _ _ _ h hstep => step_ordered h hstep) ls s hrun

end Host

end LibtorrentKit
