/-
  A serial queue of blocks.

  Blocks are executed one at a time, in the order in which they were added; the block at the
  head is the one being executed. The queue keeps the blocks that are done, so that the order
  in which blocks were added is `blocks`: it only grows at its end (`blocks_async`), and a
  block that was added before the head is done (`done_of_before_head`).
-/
import Mathlib.Data.List.Basic

/-- The blocks that are done, and those that are not, each in order. -/
structure SerialQueue (β : Type*) where
  done : List β := []
  queue : List β := []
  deriving DecidableEq

namespace SerialQueue

variable {β : Type*}

/-- All blocks, in the order in which they were added. -/
def blocks (q : SerialQueue β) : List β := q.done ++ q.queue

/-- Add a block at the end. -/
def async (q : SerialQueue β) (b : β) : SerialQueue β := { q with queue := q.queue ++ [b] }

/-- The block at the head is done. -/
def pop (q : SerialQueue β) : SerialQueue β :=
  match q.queue with
  | [] => q
  | b :: rest => { done := q.done ++ [b], queue := rest }

/-- Block `a` was added before block `b`. -/
def Before (q : SerialQueue β) (a b : β) : Prop := [a, b].Sublist q.blocks

theorem mem_blocks {q : SerialQueue β} {b : β} : b ∈ q.blocks ↔ b ∈ q.done ∨ b ∈ q.queue :=
  List.mem_append

@[simp] theorem done_async (q : SerialQueue β) (b : β) : (q.async b).done = q.done := rfl

@[simp] theorem queue_async (q : SerialQueue β) (b : β) : (q.async b).queue = q.queue ++ [b] := rfl

@[simp] theorem blocks_async (q : SerialQueue β) (b : β) : (q.async b).blocks = q.blocks ++ [b] := by
  simp [blocks]

@[simp] theorem blocks_pop (q : SerialQueue β) : q.pop.blocks = q.blocks := by
  unfold pop blocks
  split
  · rfl
  · next h => simp [h]

theorem mem_queue_of_head {q : SerialQueue β} {b : β} (h : q.queue.head? = some b) : b ∈ q.queue :=
  List.mem_of_head? h

theorem head_async {q : SerialQueue β} {a b : β} (h : q.queue.head? = some a) :
    (q.async b).queue.head? = some a := by
  simp [h]

theorem done_pop {q : SerialQueue β} {b : β} (h : q.queue.head? = some b) :
    q.pop.done = q.done ++ [b] := by
  obtain ⟨rest, hq⟩ := List.head?_eq_some_iff.mp h
  simp [pop, hq]

theorem queue_pop {q : SerialQueue β} {b : β} (h : q.queue.head? = some b) :
    q.queue = b :: q.pop.queue := by
  obtain ⟨rest, hq⟩ := List.head?_eq_some_iff.mp h
  simp [pop, hq]

/-- The block at the head moves from the queue to the blocks that are done. -/
theorem mem_done_pop {q : SerialQueue β} {b c : β} (h : q.queue.head? = some b) :
    c ∈ q.pop.done ↔ c ∈ q.done ∨ c = b := by
  simp [done_pop h]

theorem mem_queue_pop {q : SerialQueue β} {b c : β} (hnodup : q.blocks.Nodup)
    (h : q.queue.head? = some b) : c ∈ q.pop.queue ↔ c ∈ q.queue ∧ c ≠ b := by
  have hq := queue_pop h
  have hnd : (b :: q.pop.queue).Nodup := hq ▸ (List.nodup_append.mp hnodup).2.1
  rw [hq]
  constructor
  · intro hc
    exact ⟨List.mem_cons_of_mem _ hc, fun heq => (List.nodup_cons.mp hnd).1 (heq ▸ hc)⟩
  · rintro ⟨hc, hne⟩
    exact (List.mem_cons.mp hc).resolve_left hne

theorem before_pop {q : SerialQueue β} {a b : β} : q.pop.Before a b ↔ q.Before a b := by
  unfold Before
  rw [blocks_pop]

/-- A new block comes after all others; the order of the others does not change. -/
theorem before_async {q : SerialQueue β} {a b c : β} (h : (q.async c).Before a b) :
    q.Before a b ∨ b = c ∧ a ∈ q.blocks := by
  unfold Before at *
  rw [blocks_async, List.sublist_append_iff] at h
  obtain ⟨xs, ys, hxy, hxs, hys⟩ := h
  match xs, hxy with
  | [], hxy =>
      have := hys.length_le
      simp [← List.nil_append ys ▸ hxy] at this
  | [x], hxy =>
      obtain ⟨rfl, rfl⟩ : x = a ∧ ys = [b] := by simpa [eq_comm] using hxy
      exact Or.inr ⟨List.mem_singleton.mp (List.singleton_sublist.mp hys),
        List.singleton_sublist.mp hxs⟩
  | [x, y], hxy =>
      obtain ⟨rfl, rfl, rfl⟩ : x = a ∧ y = b ∧ ys = [] := by
        simpa [eq_comm] using hxy
      exact Or.inl hxs
  | x :: y :: z :: rest, hxy => simp at hxy

/-- What was added before the block at the head is done. -/
theorem done_of_before_head {q : SerialQueue β} {a b : β} (hnodup : q.blocks.Nodup)
    (h : q.Before a b) (hhead : q.queue.head? = some b) : a ∈ q.done := by
  obtain ⟨rest, hq⟩ := List.head?_eq_some_iff.mp hhead
  unfold Before blocks at h
  unfold blocks at hnodup
  rw [hq] at h hnodup
  obtain ⟨xs, ys, hxy, hxs, hys⟩ := List.sublist_append_iff.mp h
  match xs, hxy with
  | [], hxy =>
      -- both would stand in the queue, the head after another block
      obtain rfl : ys = [a, b] := by simpa [eq_comm] using hxy
      have hnd : (b :: rest).Nodup := (List.nodup_append.mp hnodup).2.1
      have hb : b ∈ rest := by
        cases hys with
        | cons _ h => exact h.subset (by simp)
        | cons_cons _ h => exact h.subset (by simp)
      exact absurd hb (List.nodup_cons.mp hnd).1
  | x :: xs, hxy =>
      obtain rfl : a = x := by simpa using congrArg List.head? hxy
      exact hxs.subset List.mem_cons_self

end SerialQueue
