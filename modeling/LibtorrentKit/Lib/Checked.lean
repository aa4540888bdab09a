/-
  Fixed-width arithmetic that has a result only when it does not overflow.

  `none` stands for the trap of a language that checks and for the undefined behaviour of one
  that does not. Division truncates. Each operation has its exact result when that fits
  (`add64_eq`, …); dividing what is not negative by what is positive always fits.
-/
import Mathlib.Algebra.Order.Group.Int
import Mathlib.Data.Int.Basic

namespace Checked

/-- The range of a 64-bit integer. -/
def Fits64 (a : Int) : Prop := -9223372036854775808 ≤ a ∧ a ≤ 9223372036854775807

/-- The range of a 32-bit integer. -/
def Fits32 (a : Int) : Prop := -2147483648 ≤ a ∧ a ≤ 2147483647

instance : DecidablePred Fits64 := fun _ => inferInstanceAs (Decidable (_ ∧ _))

instance : DecidablePred Fits32 := fun _ => inferInstanceAs (Decidable (_ ∧ _))

/-- A result that must fit. -/
def exact64 (a : Int) : Option Int := if Fits64 a then some a else none

/-- A conversion to 32 bits. -/
def exact32 (a : Int) : Option Int := if Fits32 a then some a else none

def add64 (a b : Int) : Option Int := exact64 (a + b)
def sub64 (a b : Int) : Option Int := exact64 (a - b)
def mul64 (a b : Int) : Option Int := exact64 (a * b)
def div64 (a b : Int) : Option Int := if b = 0 then none else exact64 (a.tdiv b)

theorem exact64_eq {a : Int} (h : Fits64 a) : exact64 a = some a := if_pos h

theorem exact32_eq {a : Int} (h : Fits32 a) : exact32 a = some a := if_pos h

theorem add64_eq {a b : Int} (h : Fits64 (a + b)) : add64 a b = some (a + b) := if_pos h

theorem sub64_eq {a b : Int} (h : Fits64 (a - b)) : sub64 a b = some (a - b) := if_pos h

theorem mul64_eq {a b : Int} (h : Fits64 (a * b)) : mul64 a b = some (a * b) := if_pos h

theorem div64_eq {a b : Int} (ha : 0 ≤ a) (hfits : Fits64 a) (hb : 0 < b) :
    div64 a b = some (a / b) := by
  have hq : 0 ≤ a / b := Int.ediv_nonneg ha (Int.le_of_lt hb)
  have hle : a / b ≤ a := Int.ediv_le_self b ha
  unfold div64
  rw [if_neg (by omega), Int.tdiv_eq_ediv_of_nonneg ha]
  unfold Fits64 at hfits
  exact exact64_eq ⟨by omega, by omega⟩

end Checked
