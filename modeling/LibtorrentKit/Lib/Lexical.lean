/-
  Paths as lists of names. A name is passed over, leads up or leads down; walking along the names
  gives the normal form of the path without a look at the disk. A walk that never leads up ends
  below the place where it began, along the names that lead down.
-/
import Mathlib.Data.List.Basic

namespace Lexical

variable {α : Type} (here up : α → Bool)

/-- The place after one more name. -/
def step (place : List α) (name : α) : List α :=
  if here name then place else if up name then place.dropLast else place ++ [name]

/-- The place after a list of names. -/
def walk (place : List α) (names : List α) : List α := names.foldl (step here up) place

variable {here up}

theorem walk_append (place xs ys : List α) :
    walk here up place (xs ++ ys) = walk here up (walk here up place xs) ys :=
  List.foldl_append

theorem walk_down {place names : List α} (hup : ∀ name ∈ names, up name = false) :
    walk here up place names = place ++ names.filter fun name => !here name := by
  induction names generalizing place with
  | nil => simp [walk]
  | cons name names ih =>
    have hrest : ∀ place, walk here up place names = place ++ names.filter fun name => !here name :=
      fun _ => ih fun n hn => hup n (List.mem_cons_of_mem _ hn)
    have hname := hup name List.mem_cons_self
    change walk here up (step here up place name) names = _
    rw [hrest]
    cases h : here name <;> simp [step, h, hname]

/-- Another walk, from where a first one has ended. -/
theorem walk_under {place xs ys : List α} (hup : ∀ name ∈ ys, up name = false) :
    walk here up place (xs ++ ys) =
      walk here up place xs ++ ys.filter fun name => !here name := by
  rw [walk_append, walk_down hup]

end Lexical
