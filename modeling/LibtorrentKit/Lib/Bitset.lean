/-
  Sets of numbers as the bits of a list of bytes: `k` is bit `k % 8` of byte `k / 8`, lowest
  first. Reading or writing beyond the list has no result.
-/
import Mathlib.Data.List.Basic

namespace Bitset

/-- Whether `k` is in the set; what lies beyond the list is not. -/
def bit (bytes : List UInt8) (k : Nat) : Bool :=
  (bytes[k / 8]?).any fun byte => byte.toBitVec.getLsbD (k % 8)

def mask (r : Nat) : UInt8 := 1 <<< UInt8.ofNat r

/-- Read by masking the byte. -/
def testBit (bytes : List UInt8) (k : Nat) : Option Bool :=
  (bytes[k / 8]?).map fun byte => byte &&& mask (k % 8) != 0

/-- Add `k`. -/
def setBit (bytes : List UInt8) (k : Nat) : Option (List UInt8) :=
  (bytes[k / 8]?).map fun byte => bytes.set (k / 8) (byte ||| mask (k % 8))

/-- Add the members among `ks`, one after the other. -/
def fill (member : Nat → Bool) (bytes : List UInt8) (ks : List Nat) : Option (List UInt8) :=
  ks.foldlM (fun bytes k => if member k then setBit bytes k else some bytes) bytes

/-! ## One byte -/

theorem mask_getLsbD {r j : Nat} (hr : r < 8) (hj : j < 8) :
    (mask r).toBitVec.getLsbD j = decide (j = r) := by
  have hall : ∀ r j : Fin 8, (mask r).toBitVec.getLsbD j = decide (j.val = r.val) := by decide
  exact hall ⟨r, hr⟩ ⟨j, hj⟩

theorem and_mask_ne_zero {byte : UInt8} {r : Nat} (hr : r < 8) :
    (byte &&& mask r != 0) = byte.toBitVec.getLsbD r := by
  have hbits : ∀ j < 8, (byte &&& mask r).toBitVec.getLsbD j =
      (byte.toBitVec.getLsbD j && decide (j = r)) := by
    intro j hj
    rw [UInt8.toBitVec_and, BitVec.getLsbD_and, mask_getLsbD hr hj]
  cases hbyte : byte.toBitVec.getLsbD r with
  | true =>
    rw [bne_iff_ne]
    intro hzero
    have hr' := hbits r hr
    rw [hzero, hbyte] at hr'
    simp at hr'
  | false =>
    have hzero : byte &&& mask r = 0 := by
      apply UInt8.eq_of_toBitVec_eq
      apply BitVec.eq_of_getLsbD_eq
      intro j hj
      rw [hbits j hj]
      by_cases hjr : j = r
      · simp [hjr, hbyte]
      · simp [hjr]
    simp [hzero]

/-! ## Lists of bytes -/

theorem getElem?_of_lt {bytes : List UInt8} {k : Nat} (h : k < 8 * bytes.length) :
    ∃ byte, bytes[k / 8]? = some byte :=
  ⟨_, List.getElem?_eq_getElem (by omega)⟩

theorem testBit_eq {bytes : List UInt8} {k : Nat} (h : k < 8 * bytes.length) :
    testBit bytes k = some (bit bytes k) := by
  obtain ⟨byte, hbyte⟩ := getElem?_of_lt h
  rw [testBit, bit, hbyte, Option.map_some, and_mask_ne_zero (Nat.mod_lt _ (by omega))]
  rfl

theorem setBit_spec {bytes : List UInt8} {k : Nat} (h : k < 8 * bytes.length) :
    ∃ bytes', setBit bytes k = some bytes' ∧ bytes'.length = bytes.length ∧
      ∀ j, bit bytes' j = (bit bytes j || decide (j = k)) := by
  obtain ⟨byte, hbyte⟩ := getElem?_of_lt h
  refine ⟨bytes.set (k / 8) (byte ||| mask (k % 8)), by rw [setBit, hbyte]; rfl,
    List.length_set, fun j => ?_⟩
  by_cases hdiv : j / 8 = k / 8
  · have hj : j = k ↔ j % 8 = k % 8 := by omega
    have hlt : k / 8 < bytes.length := by omega
    simp only [bit, hdiv, List.getElem?_set_self hlt, hbyte, Option.any_some,
      UInt8.toBitVec_or, BitVec.getLsbD_or, hj]
    rw [mask_getLsbD (Nat.mod_lt _ (by omega)) (Nat.mod_lt _ (by omega))]
  · have hne : j ≠ k := fun h => hdiv (h ▸ rfl)
    simp [bit, List.getElem?_set_ne (Ne.symm hdiv), hne]

theorem fill_spec {member : Nat → Bool} {ks : List Nat} {bytes : List UInt8}
    (h : ∀ k ∈ ks, k < 8 * bytes.length) :
    ∃ bytes', fill member bytes ks = some bytes' ∧ bytes'.length = bytes.length ∧
      ∀ j, bit bytes' j = (bit bytes j || (decide (j ∈ ks) && member j)) := by
  induction ks generalizing bytes with
  | nil => exact ⟨bytes, rfl, rfl, fun j => by simp⟩
  | cons k ks ih =>
    obtain ⟨hk, hks⟩ := List.forall_mem_cons.mp h
    cases hmember : member k with
    | false =>
      obtain ⟨bytes', hfill, hlength, hbit⟩ := ih hks
      refine ⟨bytes', ?_, hlength, fun j => ?_⟩
      · rw [fill, List.foldlM_cons, hmember]
        exact hfill
      · rw [hbit]
        by_cases hj : j = k <;> simp [hj, hmember]
    | true =>
      obtain ⟨bytes₁, hset, hlength₁, hbit₁⟩ := setBit_spec hk
      obtain ⟨bytes', hfill, hlength, hbit⟩ := ih (hlength₁ ▸ hks)
      refine ⟨bytes', ?_, hlength.trans hlength₁, fun j => ?_⟩
      · rw [fill, List.foldlM_cons, hmember, if_pos rfl, hset]
        exact hfill
      · rw [hbit, hbit₁]
        by_cases hj : j = k <;> simp [hj, hmember]

/-- Two lists of one length with the same members are equal. -/
theorem ext {xs ys : List UInt8} (hlength : xs.length = ys.length)
    (h : ∀ k, bit xs k = bit ys k) : xs = ys := by
  refine List.ext_getElem hlength fun i hx hy => ?_
  apply UInt8.eq_of_toBitVec_eq
  apply BitVec.eq_of_getLsbD_eq
  intro j hj
  have hk := h (8 * i + j)
  have hdiv : (8 * i + j) / 8 = i := by omega
  have hmod : (8 * i + j) % 8 = j := by omega
  simpa [bit, hdiv, hmod, List.getElem?_eq_getElem hx, List.getElem?_eq_getElem hy] using hk

end Bitset
