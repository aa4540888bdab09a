/-
  JSON texts.

  `parse` reads a text as RFC 8259 defines it, and yields the value that it denotes: strings
  with their escapes resolved, numbers exactly, objects with their members in order. The parser
  works on lists of characters; its recursion is bounded by `fuel`, which the length of the text
  always suffices for.

  `stringBody_flatMap` is about strings that are written character by character.
  `stringBody_plain` and `plain_of_stringBody` are about those that are written as they are,
  without escapes: such a string is read back exactly when it has no character that would need
  one.
-/
import Mathlib.Algebra.Order.Field.Rat
import Mathlib.Tactic.Common

namespace Json

inductive Value where
  | null
  | bool (b : Bool)
  | number (q : ℚ)
  | string (s : String)
  | array (vs : List Value)
  | object (members : List (String × Value))

/-! ## Strings -/

def hexValue (c : Char) : Option Nat :=
  if c.isDigit then some (c.toNat - '0'.toNat)
  else if 'a' ≤ c ∧ c ≤ 'f' then some (c.toNat - 'a'.toNat + 10)
  else if 'A' ≤ c ∧ c ≤ 'F' then some (c.toNat - 'A'.toNat + 10)
  else none

/-- What a backslash and `c` stand for, other than `\u`. -/
def unescape (c : Char) : Option Char :=
  if c = '"' ∨ c = '\\' ∨ c = '/' then some c
  else if c = 'b' then some '\x08'
  else if c = 'f' then some '\x0c'
  else if c = 'n' then some '\n'
  else if c = 'r' then some '\r'
  else if c = 't' then some '\t'
  else none

/-- Where the reader of a string is: in its text, behind a backslash, in the digits of `\u`, or
    between the two halves of a surrogate pair. `high` is the first half. -/
inductive Mode where
  | text
  | escape (high : Option Nat)
  | unicode (high : Option Nat) (digits value : Nat)
  | low (high : Nat)

/-- A code unit is a character, or the first half of one; `none` is half of no character. -/
def codeUnit (high : Option Nat) (unit : Nat) : Option (Char ⊕ Mode) :=
  match high with
  | none =>
      if 0xd800 ≤ unit ∧ unit < 0xdc00 then some (.inr (.low unit))
      else if 0xdc00 ≤ unit ∧ unit < 0xe000 then none
      else some (.inl (Char.ofNat unit))
  | some high =>
      if 0xdc00 ≤ unit ∧ unit < 0xe000 then
        some (.inl (Char.ofNat (0x10000 + (high - 0xd800) * 0x400 + (unit - 0xdc00))))
      else none

/-- A character in front of a string. -/
def prepend (c : Char) (r : Option (List Char × List Char)) : Option (List Char × List Char) :=
  r.map fun x => (c :: x.1, x.2)

/-- A string behind its opening quotation mark, and what follows the closing one. -/
def stringBody : Mode → List Char → Option (List Char × List Char)
  | _, [] => none
  | .text, c :: rest =>
      if c = '"' then some ([], rest)
      else if c = '\\' then stringBody (.escape none) rest
      else if c.toNat < 0x20 then none
      else prepend c (stringBody .text rest)
  | .escape high, c :: rest =>
      if c = 'u' then stringBody (.unicode high 0 0) rest
      else if high.isSome then none
      else
        match unescape c with
        | some x => prepend x (stringBody .text rest)
        | none => none
  | .unicode high digits value, c :: rest =>
      match hexValue c with
      | none => none
      | some d =>
          if digits < 3 then stringBody (.unicode high (digits + 1) (16 * value + d)) rest
          else
            match codeUnit high (16 * value + d) with
            | none => none
            | some (.inl x) => prepend x (stringBody .text rest)
            | some (.inr mode) => stringBody mode rest
  | .low high, c :: rest => if c = '\\' then stringBody (.escape (some high)) rest else none

/-! ## Numbers -/

/-- The digits at the front, and what follows them. -/
def digits (input : List Char) : List Char × List Char :=
  (input.takeWhile Char.isDigit, input.dropWhile Char.isDigit)

def wholePart (input : List Char) : Option (List Char × List Char) :=
  match digits input with
  | ([], _) => none
  | ('0' :: _ :: _, _) => none
  | (ds, rest) => some (ds, rest)

def fractionPart : List Char → Option (List Char × List Char)
  | '.' :: rest =>
      match digits rest with
      | ([], _) => none
      | (ds, rest) => some (ds, rest)
  | rest => some ([], rest)

/-- The digits of an exponent, as the factor they stand for. -/
def exponentDigits (negative : Bool) (input : List Char) : Option (ℚ × List Char) :=
  match digits input with
  | ([], _) => none
  | (ds, rest) =>
      let power : ℚ := 10 ^ Nat.ofDigitChars 10 ds 0
      some (if negative then 1 / power else power, rest)

def signedExponent : List Char → Option (ℚ × List Char)
  | '-' :: rest => exponentDigits true rest
  | '+' :: rest => exponentDigits false rest
  | rest => exponentDigits false rest

def exponentPart : List Char → Option (ℚ × List Char)
  | [] => some (1, [])
  | c :: rest => if c = 'e' ∨ c = 'E' then signedExponent rest else some (1, c :: rest)

/-- The number without a sign. -/
def magnitude (input : List Char) : Option (ℚ × List Char) :=
  (wholePart input).bind fun (whole, rest) =>
    (fractionPart rest).bind fun (fraction, rest) =>
      (exponentPart rest).map fun (factor, rest) =>
        ((Nat.ofDigitChars 10 (whole ++ fraction) 0 : ℚ) / 10 ^ fraction.length * factor, rest)

def number : List Char → Option (ℚ × List Char)
  | '-' :: rest => (magnitude rest).map fun (q, rest) => (-q, rest)
  | input => magnitude input

/-! ## Values -/

def isSpace (c : Char) : Bool := c = ' ' || c = '\t' || c = '\n' || c = '\r'

def skip (input : List Char) : List Char := input.dropWhile isSpace

mutual

/-- A value, and what follows it. -/
def value : Nat → List Char → Option (Value × List Char)
  | 0, _ => none
  | fuel + 1, input =>
      match skip input with
      | '"' :: rest =>
          (stringBody .text rest).map fun (s, rest) => (.string (String.ofList s), rest)
      | '\x7b' :: rest =>
          match skip rest with
          | '\x7d' :: rest => some (.object [], rest)
          | rest => (members fuel rest).map fun (ms, rest) => (.object ms, rest)
      | '[' :: rest =>
          match skip rest with
          | ']' :: rest => some (.array [], rest)
          | rest => (elements fuel rest).map fun (vs, rest) => (.array vs, rest)
      | 't' :: 'r' :: 'u' :: 'e' :: rest => some (.bool true, rest)
      | 'f' :: 'a' :: 'l' :: 's' :: 'e' :: rest => some (.bool false, rest)
      | 'n' :: 'u' :: 'l' :: 'l' :: rest => some (.null, rest)
      | rest => (number rest).map fun (q, rest) => (.number q, rest)

/-- The members of an object, up to its closing brace. -/
def members : Nat → List Char → Option (List (String × Value) × List Char)
  | 0, _ => none
  | fuel + 1, input =>
      match skip input with
      | '"' :: rest =>
          (stringBody .text rest).bind fun (key, rest) =>
            match skip rest with
            | ':' :: rest =>
                (value fuel rest).bind fun (v, rest) =>
                  match skip rest with
                  | ',' :: rest =>
                      (members fuel rest).map fun (ms, rest) => ((String.ofList key, v) :: ms, rest)
                  | '\x7d' :: rest => some ([(String.ofList key, v)], rest)
                  | _ => none
            | _ => none
      | _ => none

/-- The elements of an array, up to its closing bracket. -/
def elements : Nat → List Char → Option (List Value × List Char)
  | 0, _ => none
  | fuel + 1, input =>
      (value fuel input).bind fun (v, rest) =>
        match skip rest with
        | ',' :: rest => (elements fuel rest).map fun (vs, rest) => (v :: vs, rest)
        | ']' :: rest => some ([v], rest)
        | _ => none

end

/-- The value of a well-formed text. -/
def parse (text : String) : Option Value :=
  match value (2 * text.toList.length + 1) text.toList with
  | some (v, rest) => if skip rest = [] then some v else none
  | none => none

/-- `text` is well formed and denotes `v`: with enough fuel it is read, and nothing is left. -/
def Denotes (text : String) (v : Value) : Prop :=
  ∃ fuel rest, value fuel text.toList = some (v, rest) ∧ skip rest = []

theorem Denotes.of_parse {text : String} {v : Value} (h : parse text = some v) :
    Denotes text v := by
  unfold parse at h
  split at h
  · next v' rest hvalue =>
      simp only [Option.ite_none_right_eq_some, Option.some.injEq] at h
      obtain ⟨hrest, rfl⟩ := h
      exact ⟨_, rest, hvalue, hrest⟩
  · cases h

/-! ## Strings without escapes -/

/-- A character that may stand in a string as it is. -/
def isPlain (c : Char) : Bool := c ≠ '"' && c ≠ '\\' && 0x20 ≤ c.toNat

def Plain (xs : List Char) : Prop := ∀ c ∈ xs, isPlain c = true

instance : DecidablePred Plain := fun xs => List.decidableBAll (fun c => isPlain c = true) xs

theorem isPlain_iff {c : Char} : isPlain c = true ↔ c ≠ '"' ∧ c ≠ '\\' ∧ ¬ c.toNat < 0x20 := by
  simp [isPlain, and_assoc]

/-- A literal is plain when its code points are those of plain characters. -/
theorem plain_ofList {xs : List Char}
    (h : ∀ n ∈ xs.map Char.toNat, n ≠ 0x22 ∧ n ≠ 0x5c ∧ 0x20 ≤ n) :
    Plain (String.ofList xs).toList := by
  intro c hc
  rw [String.toList_ofList] at hc
  obtain ⟨hquote, hslash, hcontrol⟩ := h c.toNat (List.mem_map_of_mem hc)
  refine isPlain_iff.mpr ⟨?_, ?_, Nat.not_lt.mpr hcontrol⟩
  · rintro rfl
    exact hquote rfl
  · rintro rfl
    exact hslash rfl

/-- In the text of a string, `ys` stands for the character `c`. -/
def Spells (ys : List Char) (c : Char) : Prop :=
  ∀ rest, stringBody .text (ys ++ rest) = prepend c (stringBody .text rest)

theorem spells_plain {c : Char} (h : isPlain c = true) : Spells [c] c := by
  obtain ⟨hquote, hslash, hcontrol⟩ := isPlain_iff.mp h
  intro rest
  rw [List.singleton_append, stringBody, if_neg hquote, if_neg hslash, if_neg hcontrol]

theorem spells_escape {c x : Char} (hu : c ≠ 'u') (h : unescape c = some x) :
    Spells ['\\', c] x := by
  intro rest
  rw [List.cons_append, List.singleton_append, stringBody, if_neg (by decide), if_pos rfl,
    stringBody, if_neg hu, h]
  rfl

/-- A string that is written character by character is read so. -/
theorem stringBody_flatMap {code : Char → List Char} {shown : Char → Char} {xs : List Char}
    (h : ∀ c ∈ xs, Spells (code c) (shown c)) (rest : List Char) :
    stringBody .text (xs.flatMap code ++ '"' :: rest) = some (xs.map shown, rest) := by
  induction xs with
  | nil => rfl
  | cons c xs ih =>
      obtain ⟨hc, hxs⟩ := List.forall_mem_cons.mp h
      rw [List.flatMap_cons, List.append_assoc, hc, ih hxs]
      rfl

/-- A plain string is read as it is. -/
theorem stringBody_plain {xs : List Char} (h : Plain xs) (rest : List Char) :
    stringBody .text (xs ++ '"' :: rest) = some (xs, rest) := by
  have hread := @stringBody_flatMap (fun c => [c]) id xs (fun c hc => spells_plain (h c hc)) rest
  rwa [List.flatMap_singleton', List.map_id] at hread

theorem prepend_eq_some {c : Char} {r : Option (List Char × List Char)} {s rest : List Char} :
    prepend c r = some (s, rest) ↔ ∃ s', r = some (s', rest) ∧ s = c :: s' := by
  unfold prepend
  rw [Option.map_eq_some_iff]
  constructor
  · rintro ⟨⟨s', rest'⟩, hr, heq⟩
    obtain ⟨rfl, rfl⟩ := Prod.mk.inj heq
    exact ⟨s', hr, rfl⟩
  · rintro ⟨s', hr, rfl⟩
    exact ⟨(s', rest), hr, rfl⟩

theorem hexValue_quote : hexValue '"' = none := by decide

/-- A reader that has skipped the characters `w`, none of them a quotation mark, does not catch
    up: what it reads is never `w` and then the text that is still to come. -/
theorem stringBody_ahead {rest : List Char} (ys : List Char) :
    ∀ (mode : Mode) (w r : List Char), w ≠ [] → '"' ∉ w →
      stringBody mode (ys ++ '"' :: rest) ≠ some (w ++ ys, r) := by
  -- a character read after an escape is the first one of `w`
  have hread : ∀ {x : Char} {w ys r : List Char} {o : Option (List Char × List Char)}, w ≠ [] →
      prepend x o = some (w ++ ys, r) → ∃ v, w = x :: v ∧ o = some (v ++ ys, r) := by
    intro x w ys r o hw h
    obtain ⟨s, ho, hs⟩ := prepend_eq_some.mp h
    cases w with
    | nil => exact absurd rfl hw
    | cons y v =>
        obtain ⟨rfl, rfl⟩ := List.cons.inj hs
        exact ⟨v, rfl, ho⟩
  induction ys with
  | nil =>
      intro mode w r hw hquote h
      rw [List.nil_append] at h
      cases mode with
      | text =>
          obtain ⟨hnil, -⟩ := Prod.mk.inj (Option.some.inj h)
          exact hw (List.append_eq_nil_iff.mp hnil.symm).1
      | escape high =>
          rw [stringBody, if_neg (by decide)] at h
          split at h
          · cases h
          · obtain ⟨v, rfl, -⟩ := hread hw h
            exact hquote (by simp)
      | unicode high digits value =>
          rw [stringBody, hexValue_quote] at h
          cases h
      | low high =>
          rw [stringBody, if_neg (by decide)] at h
          cases h
  | cons c ys ih =>
      -- `c` is skipped, too
      have hskip : ∀ {mode : Mode} {v r : List Char}, '"' ∉ v → c ≠ '"' →
          stringBody mode (ys ++ '"' :: rest) ≠ some (v ++ c :: ys, r) := by
        intro mode v r hv hc h
        refine ih mode (v ++ [c]) r (by simp) ?_ (by simpa using h)
        simp only [List.mem_append, List.mem_singleton, not_or]
        exact ⟨hv, fun heq => hc heq.symm⟩
      have hmore : ∀ {x : Char} {w r : List Char}, w ≠ [] → '"' ∉ w → c ≠ '"' →
          prepend x (stringBody .text (ys ++ '"' :: rest)) ≠ some (w ++ c :: ys, r) := by
        intro x w r hw hquote hc h
        obtain ⟨v, rfl, hv⟩ := hread hw h
        exact hskip (fun hmem => hquote (List.mem_cons_of_mem _ hmem)) hc hv
      intro mode w r hw hquote h
      rw [List.cons_append] at h
      cases mode with
      | text =>
          rw [stringBody] at h
          split at h
          · obtain ⟨hnil, -⟩ := Prod.mk.inj (Option.some.inj h)
            exact hw (List.append_eq_nil_iff.mp hnil.symm).1
          · next hc =>
              split at h
              · exact hskip hquote hc h
              · split at h
                · cases h
                · exact hmore hw hquote hc h
      | escape high =>
          rw [stringBody] at h
          split at h
          · next hu => exact hskip hquote (by rw [hu]; decide) h
          · split at h
            · cases h
            · split at h
              · next x hx =>
                  refine hmore hw hquote ?_ h
                  rintro rfl
                  obtain ⟨v, rfl, -⟩ := hread hw h
                  obtain rfl : '"' = x := Option.some.inj hx
                  exact hquote (by simp)
              · cases h
      | unicode high digits value =>
          rw [stringBody] at h
          have hc : ∀ {d}, hexValue c = some d → c ≠ '"' := by
            rintro d hd rfl
            rw [hexValue_quote] at hd
            cases hd
          cases hd : hexValue c with
          | none => simp [hd] at h
          | some d =>
              simp only [hd] at h
              split at h
              · exact hskip hquote (hc hd) h
              · split at h
                · cases h
                · exact hmore hw hquote (hc hd) h
                · exact hskip hquote (hc hd) h
      | low high =>
          rw [stringBody] at h
          split at h
          · next hc => exact hskip hquote (by rw [hc]; decide) h
          · cases h

/-- A string that is read as it is written is plain. -/
theorem plain_of_stringBody {xs rest r : List Char}
    (h : stringBody .text (xs ++ '"' :: rest) = some (xs, r)) : Plain xs := by
  induction xs with
  | nil => exact fun c hc => by cases hc
  | cons c xs ih =>
      rw [List.cons_append, stringBody] at h
      split at h
      · cases h
      · next hquote =>
          split at h
          · exact absurd h (stringBody_ahead xs _ [c] r (by simp) (by simpa using Ne.symm hquote))
          · next hslash =>
              split at h
              · cases h
              · next hcontrol =>
                  obtain ⟨s, hs, heq⟩ := prepend_eq_some.mp h
                  obtain rfl := (List.cons.inj heq).2
                  exact List.forall_mem_cons.mpr
                    ⟨isPlain_iff.mpr ⟨hquote, hslash, hcontrol⟩, ih hs⟩

end Json
