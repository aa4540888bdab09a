/-
  A range of positions cut into blocks of one length.

  `mem_blocks_iff`: the blocks from that of the first position to that of the last are exactly
  the blocks that contain a position of the range.
-/
import Mathlib.Algebra.Order.Group.Int
import Mathlib.Data.Int.Basic

namespace Blocks

theorem div_mono {a b L : Int} (hL : 0 < L) (h : a ≤ b) : a / L ≤ b / L := Int.ediv_le_ediv hL h

/-- A block lies between the blocks of the first and the last position of a range exactly when
    it is the block of one of its positions. -/
theorem mem_blocks_iff {first last L p : Int} (hL : 0 < L) (h : first ≤ last) :
    (first / L ≤ p ∧ p ≤ last / L) ↔ ∃ x, first ≤ x ∧ x ≤ last ∧ x / L = p := by
  constructor
  · rintro ⟨hfirst, hlast⟩
    have hstart : p * L ≤ last := (Int.le_ediv_iff_mul_le hL).mp hlast
    rcases le_total first (p * L) with hle | hle
    · exact ⟨p * L, hle, hstart, Int.mul_ediv_cancel p (by omega)⟩
    · -- the range begins inside the block
      have hp : p ≤ first / L := (Int.le_ediv_iff_mul_le hL).mpr hle
      exact ⟨first, le_refl first, h, le_antisymm hfirst hp⟩
  · rintro ⟨x, hfirst, hlast, rfl⟩
    exact ⟨div_mono hL hfirst, div_mono hL hlast⟩

end Blocks
