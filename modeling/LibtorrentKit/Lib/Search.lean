/-
  Searching a list for a pattern. The entries are folded before they are compared, and those to
  skip are passed over wherever they stand. Searching so is the same as searching the list with
  these entries left out.
-/
import Mathlib.Data.List.Infix

namespace Search

variable {α β : Type} [DecidableEq β] (skip : α → Bool) (fold : α → β)

/-- The pattern stands at the beginning of the text. -/
def starts : (pattern : List β) → (text : List α) → Bool
  | [], _ => true
  | _ :: _, [] => false
  | p :: ps, x :: xs => if skip x then starts (p :: ps) xs else fold x == p && starts ps xs

/-- The pattern stands somewhere in the text. -/
def occurs (pattern : List β) (text : List α) : Bool :=
  text.tails.any (starts skip fold pattern)

variable {skip fold}

theorem starts_iff {pattern : List β} {text : List α} :
    starts skip fold pattern text = true ↔
      pattern <+: (text.filter fun x => !skip x).map fold := by
  induction text generalizing pattern with
  | nil => cases pattern <;> simp [starts]
  | cons x xs ih =>
    cases pattern with
    | nil => simp [starts]
    | cons p ps =>
      cases hx : skip x with
      | true => simp [starts, hx, ih]
      | false =>
        have hfilter : (x :: xs).filter (fun x => !skip x) = x :: xs.filter fun x => !skip x := by
          simp [hx]
        rw [hfilter, List.map_cons, List.cons_prefix_cons, ← ih, @eq_comm _ p]
        simp [starts, hx]

/-- A suffix of what a filter leaves is what it leaves of a suffix. -/
theorem suffix_filter_iff {keep : α → Bool} {ys xs : List α} :
    ys <:+ xs.filter keep ↔ ∃ zs, zs <:+ xs ∧ zs.filter keep = ys := by
  constructor
  · rintro ⟨front, h⟩
    obtain ⟨l₁, l₂, rfl, -, h₂⟩ := List.filter_eq_append_iff.mp h.symm
    exact ⟨l₂, List.suffix_append _ _, h₂⟩
  · rintro ⟨zs, hzs, rfl⟩
    exact hzs.filter keep

theorem occurs_iff {pattern : List β} {text : List α} :
    occurs skip fold pattern text = true ↔
      pattern <:+: (text.filter fun x => !skip x).map fold := by
  simp only [occurs, List.any_eq_true, List.mem_tails, starts_iff]
  rw [List.infix_iff_prefix_suffix]
  constructor
  · rintro ⟨zs, hzs, h⟩
    exact ⟨_, h, (hzs.filter _).map fold⟩
  · rintro ⟨t, hpt, ht⟩
    obtain ⟨ys, hys, rfl⟩ : ∃ ys, ys <:+ (text.filter fun x => !skip x) ∧ ys.map fold = t := by
      obtain ⟨front, h⟩ := ht
      obtain ⟨l₁, l₂, hl, -, h₂⟩ := List.map_eq_append_iff.mp h.symm
      exact ⟨l₂, hl ▸ List.suffix_append _ _, h₂⟩
    obtain ⟨zs, hzs, rfl⟩ := suffix_filter_iff.mp hys
    exact ⟨zs, hzs, hpt⟩

/-- Leaving the entries to skip out first makes no difference. -/
theorem occurs_filter (pattern : List β) (text : List α) :
    occurs (fun _ => false) fold pattern (text.filter fun x => !skip x) =
      occurs skip fold pattern text := by
  rw [Bool.eq_iff_iff, occurs_iff, occurs_iff]
  simp

end Search
