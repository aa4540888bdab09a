/-
  Texts as bytes.

  `encode` is UTF-8. A rewriting that goes through a text byte by byte and leaves the bytes from
  `0x80` on as they are cannot tell characters from bytes: `encode_flatMap` gives the same
  rewriting, character by character.
-/
import Mathlib.Data.List.Basic
import Mathlib.Tactic.Common

namespace Utf8

def encode (xs : List Char) : List UInt8 := xs.flatMap String.utf8EncodeChar

/-- The bytes of a text. -/
def bytes (s : String) : List UInt8 := s.toByteArray.data.toList

theorem bytes_eq (s : String) : bytes s = encode s.toList := by
  unfold bytes encode
  rw [← String.utf8Encode_toList, List.utf8Encode]
  simp

theorem bytes_ofList (xs : List Char) : bytes (String.ofList xs) = encode xs := by
  rw [bytes_eq, String.toList_ofList]

/-- The byte of a character below `0x80`. -/
def asciiByte (c : Char) : UInt8 := UInt8.ofNat c.toNat

theorem encodeChar_ascii {c : Char} (hc : c.toNat < 0x80) :
    String.utf8EncodeChar c = [asciiByte c] := by
  have hle : c.val.toNat ≤ 0x7f := Nat.le_of_lt_succ hc
  unfold String.utf8EncodeChar
  dsimp only
  rw [if_pos hle]
  rfl

/-- The bytes of the other characters. -/
theorem encodeChar_high {c : Char} (hc : 0x80 ≤ c.toNat) :
    ∀ b ∈ String.utf8EncodeChar c, 0x80 ≤ b.toNat := by
  have hle : ¬ c.val.toNat ≤ 0x7f := Nat.not_le.mpr hc
  unfold String.utf8EncodeChar
  dsimp only
  rw [if_neg hle]
  intro b hb
  split at hb
  · simp only [List.mem_cons, List.not_mem_nil, or_false] at hb
    rcases hb with rfl | rfl <;> simp only [UInt8.toNat_ofNat'] <;> omega
  · split at hb
    · simp only [List.mem_cons, List.not_mem_nil, or_false] at hb
      rcases hb with rfl | rfl | rfl <;> simp only [UInt8.toNat_ofNat'] <;> omega
    · simp only [List.mem_cons, List.not_mem_nil, or_false] at hb
      have hmax : c.val.toNat < 0x110000 := by
        have := c.valid
        rcases this with h | h <;> omega
      rcases hb with rfl | rfl | rfl | rfl <;> simp only [UInt8.toNat_ofNat'] <;> omega

section

variable {f : UInt8 → List UInt8} {g : Char → List Char}

/-- The bytes from `0x80` on pass through. -/
theorem flatMap_high (hpass : ∀ b : UInt8, 0x80 ≤ b.toNat → f b = [b]) {bs : List UInt8}
    (hbs : ∀ b ∈ bs, 0x80 ≤ b.toNat) : bs.flatMap f = bs := by
  induction bs with
  | nil => rfl
  | cons b bs ih =>
      obtain ⟨hb, hbs⟩ := List.forall_mem_cons.mp hbs
      rw [List.flatMap_cons, hpass b hb, ih hbs, List.singleton_append]

/-- Rewriting the bytes of a text is rewriting its characters. -/
theorem encode_flatMap (hpass : ∀ b : UInt8, 0x80 ≤ b.toNat → f b = [b])
    (hhigh : ∀ c : Char, 0x80 ≤ c.toNat → g c = [c])
    (hascii : ∀ c : Char, c.toNat < 0x80 → f (asciiByte c) = encode (g c)) (xs : List Char) :
    (encode xs).flatMap f = encode (xs.flatMap g) := by
  have hchar : ∀ c, (String.utf8EncodeChar c).flatMap f = encode (g c) := by
    intro c
    by_cases hc : c.toNat < 0x80
    · rw [encodeChar_ascii hc, List.flatMap_singleton, hascii c hc]
    · have hc := Nat.not_lt.mp hc
      rw [flatMap_high hpass (encodeChar_high hc), hhigh c hc]
      exact (List.flatMap_singleton _ _).symm
  unfold encode
  rw [List.flatMap_assoc, List.flatMap_assoc]
  exact congrArg (xs.flatMap ·) (funext hchar)

end

end Utf8
