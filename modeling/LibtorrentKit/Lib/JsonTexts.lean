/-
  Texts of JSON values.

  `Reads xs v` says that `xs` is a text of `v` wherever a value may stand. The lemmas
  `reads_…` build such texts from their parts: strings, decimal numbers, and objects and arrays
  without white space. The lemmas `members_…` take the reading of an object apart, member by
  member, whatever its text goes on with.
-/
import LibtorrentKit.Lib.Json
import Mathlib.Data.List.Basic
import Mathlib.Tactic.FieldSimp
import Mathlib.Tactic.Ring

namespace Json

/-! ## Numbers as texts -/

/-- No digit follows. -/
def NoDigit (rest : List Char) : Prop := ∀ c ∈ rest.head?, c.isDigit = false

/-- A number has ended. -/
def Ends (rest : List Char) : Prop :=
  ∀ c ∈ rest.head?, c.isDigit = false ∧ c ≠ '.' ∧ c ≠ 'e' ∧ c ≠ 'E'

theorem ends_nil : Ends [] := fun c hc => by cases hc

theorem ends_cons {c : Char} {rest : List Char}
    (hc : c.isDigit = false ∧ c ≠ '.' ∧ c ≠ 'e' ∧ c ≠ 'E') : Ends (c :: rest) := by
  intro x hx
  obtain rfl := Option.some.inj hx
  exact hc

theorem noDigit_cons {c : Char} {rest : List Char} (hc : c.isDigit = false) :
    NoDigit (c :: rest) := by
  intro x hx
  obtain rfl := Option.some.inj hx
  exact hc

theorem Ends.noDigit {rest : List Char} (h : Ends rest) : NoDigit rest := fun c hc => (h c hc).1

/-- Digits only. -/
def Digits (ds : List Char) : Prop := ∀ c ∈ ds, c.isDigit = true

theorem digits_append {ds rest : List Char} (hds : Digits ds) (hrest : NoDigit rest) :
    digits (ds ++ rest) = (ds, rest) := by
  have hstop : rest.takeWhile Char.isDigit = [] ∧ rest.dropWhile Char.isDigit = rest := by
    cases rest with
    | nil => exact ⟨rfl, rfl⟩
    | cons c rest =>
        have hc := hrest c rfl
        simp [hc]
  unfold digits
  rw [List.takeWhile_append_of_pos hds, List.dropWhile_append_of_pos hds, hstop.1, hstop.2,
    List.append_nil]

/-- Digits that may stand in front of the point: no zero before others. -/
structure Whole (ds : List Char) : Prop where
  digits : Digits ds
  nonempty : ds ≠ []
  leading : ds.head? = some '0' → ds = ['0']

theorem wholePart_append {ds rest : List Char} (hds : Whole ds) (hrest : NoDigit rest) :
    wholePart (ds ++ rest) = some (ds, rest) := by
  unfold wholePart
  rw [digits_append hds.digits hrest]
  split
  · next heq => exact absurd (Prod.mk.inj heq).1 hds.nonempty
  · next heq =>
      obtain ⟨rfl, -⟩ := Prod.mk.inj heq
      have hone := hds.leading rfl
      simp at hone
  · next heq =>
      obtain ⟨rfl, rfl⟩ := Prod.mk.inj heq
      rfl

theorem fractionPart_none {rest : List Char} (h : ∀ c ∈ rest.head?, c ≠ '.') :
    fractionPart rest = some ([], rest) := by
  unfold fractionPart
  split
  · next tail => exact absurd rfl (h '.' rfl)
  · rfl

theorem fractionPart_append {ds rest : List Char} (hds : Digits ds) (hne : ds ≠ [])
    (hrest : NoDigit rest) : fractionPart ('.' :: (ds ++ rest)) = some (ds, rest) := by
  rw [fractionPart, digits_append hds hrest]
  split
  · next heq => exact absurd (Prod.mk.inj heq).1 hne
  · next heq =>
      obtain ⟨rfl, rfl⟩ := Prod.mk.inj heq
      rfl

theorem exponentPart_none {rest : List Char} (h : Ends rest) :
    exponentPart rest = some (1, rest) := by
  cases rest with
  | nil => rfl
  | cons c rest =>
      obtain ⟨-, -, he, hE⟩ := h c rfl
      rw [exponentPart, if_neg (by simp [he, hE])]

theorem exponentPart_negative {ds rest : List Char} (hds : Digits ds) (hne : ds ≠ [])
    (hrest : NoDigit rest) :
    exponentPart ('e' :: '-' :: (ds ++ rest)) =
      some (1 / 10 ^ Nat.ofDigitChars 10 ds 0, rest) := by
  rw [exponentPart, if_pos (Or.inl rfl)]
  rw [signedExponent, exponentDigits, digits_append hds hrest]
  split
  · next heq => exact absurd (Prod.mk.inj heq).1 hne
  · next heq =>
      obtain ⟨rfl, rfl⟩ := Prod.mk.inj heq
      rfl

/-- An unsigned number that is put together from its parts. -/
theorem magnitude_parts {whole fraction input rest : List Char} {factor : ℚ} {r : List Char}
    (hwhole : wholePart input = some (whole, rest)) {mid : List Char}
    (hfraction : fractionPart rest = some (fraction, mid))
    (hexponent : exponentPart mid = some (factor, r)) :
    magnitude input = some
      ((Nat.ofDigitChars 10 (whole ++ fraction) 0 : ℚ) / 10 ^ fraction.length * factor, r) := by
  unfold magnitude
  simp only [hwhole, Option.bind_some, hfraction, hexponent, Option.map_some]

/-- An integer without a sign. -/
theorem magnitude_whole {ds rest : List Char} (hds : Whole ds) (hrest : Ends rest) :
    magnitude (ds ++ rest) = some ((Nat.ofDigitChars 10 ds 0 : ℚ), rest) := by
  rw [magnitude_parts (wholePart_append hds hrest.noDigit)
    (fractionPart_none fun c hc => (hrest c hc).2.1) (exponentPart_none hrest)]
  simp

theorem whole_toDigits (n : Nat) : Whole (Nat.toDigits 10 n) where
  digits c hc := Nat.isDigit_of_mem_toDigits (by decide) (by decide) hc
  nonempty := Nat.toDigits_ne_nil
  leading := by
    induction n using Nat.strong_induction_on with
    | _ n ih =>
        intro hzero
        by_cases hn : n < 10
        · rw [Nat.toDigits_of_lt_base hn] at hzero ⊢
          have : n = 0 := Nat.digitChar_eq_zero.mp (Option.some.inj hzero)
          rw [this]
          rfl
        · have hdigits := Nat.toDigits_of_base_le (b := 10) (by decide) (Nat.not_lt.mp hn)
          rw [hdigits, List.head?_append_of_ne_nil _ Nat.toDigits_ne_nil] at hzero
          have hone := ih (n / 10) (by omega) hzero
          have hpos : Nat.ofDigitChars 10 (Nat.toDigits 10 (n / 10)) 0 = n / 10 :=
            Nat.ofDigitChars_ten_toDigits
          rw [hone] at hpos
          have : (0 : Nat) = n / 10 := hpos
          omega

theorem magnitude_toDigits (n : Nat) {rest : List Char} (hrest : Ends rest) :
    magnitude (Nat.toDigits 10 n ++ rest) = some ((n : ℚ), rest) := by
  rw [magnitude_whole (whole_toDigits n) hrest, Nat.ofDigitChars_ten_toDigits]

/-- A digit or a sign in front is the sign of a number. -/
def NumberHead (xs : List Char) : Prop := ∃ c tail, xs = c :: tail ∧ (c.isDigit = true ∨ c = '-')

theorem number_of_digit {c : Char} (hc : c.isDigit = true) (xs : List Char) :
    number (c :: xs) = magnitude (c :: xs) := by
  unfold number
  split
  · next heq =>
      obtain ⟨rfl, -⟩ := List.cons.inj heq
      cases hc
  · rfl

/-- The decimal text of an integer is read as that integer. -/
theorem number_int (n : Int) {rest : List Char} (hrest : Ends rest) :
    number ((toString n).toList ++ rest) = some ((n : ℚ), rest) := by
  cases n with
  | ofNat n =>
      have htext : (toString (Int.ofNat n)).toList = Nat.toDigits 10 n := Nat.toList_repr
      rw [htext]
      have hhead : ∃ c tail, Nat.toDigits 10 n = c :: tail :=
        List.exists_cons_of_ne_nil Nat.toDigits_ne_nil
      obtain ⟨c, tail, hcons⟩ := hhead
      have hc : c.isDigit = true := (whole_toDigits n).digits c (by simp [hcons])
      rw [hcons, List.cons_append, number_of_digit hc, ← List.cons_append, ← hcons,
        magnitude_toDigits n hrest]
      rfl
  | negSucc n =>
      have htext : (toString (Int.negSucc n)).toList = '-' :: Nat.toDigits 10 (n + 1) := by
        show ("-" ++ (n + 1).repr).toList = _
        rw [String.toList_append, Nat.toList_repr]
        rfl
      rw [htext, List.cons_append, number]
      dsimp only
      rw [magnitude_toDigits (n + 1) hrest]
      simp [Int.cast_negSucc]

theorem numberHead_int (n : Int) : NumberHead (toString n).toList := by
  cases n with
  | ofNat n =>
      have htext : (toString (Int.ofNat n)).toList = Nat.toDigits 10 n := Nat.toList_repr
      obtain ⟨c, tail, hcons⟩ := List.exists_cons_of_ne_nil (Nat.toDigits_ne_nil (n := n) (b := 10))
      exact ⟨c, tail, htext.trans hcons, Or.inl ((whole_toDigits n).digits c (by simp [hcons]))⟩
  | negSucc n =>
      refine ⟨'-', Nat.toDigits 10 (n + 1), ?_, Or.inr rfl⟩
      show ("-" ++ (n + 1).repr).toList = _
      rw [String.toList_append, Nat.toList_repr]
      rfl

/-! ## Values as texts -/

theorem skip_cons {c : Char} (hc : isSpace c = false) (rest : List Char) :
    skip (c :: rest) = c :: rest := by
  unfold skip
  rw [List.dropWhile_cons_of_neg (by simp [hc])]

/-- `xs` is a text of `v`, wherever a value may stand. -/
def Reads (xs : List Char) (v : Value) : Prop :=
  ∀ fuel rest, 2 * xs.length < fuel → Ends rest → value fuel (xs ++ rest) = some (v, rest)

/-- A string that is written as it is. -/
def quoted (xs : List Char) : List Char := '"' :: (xs ++ ['"'])

theorem value_quote (fuel : Nat) (xs : List Char) :
    value (fuel + 1) ('"' :: xs) =
      (stringBody .text xs).map fun r => (.string (String.ofList r.1), r.2) := by
  rw [value, skip_cons (by decide)]
  rfl

/-- A string, however it is written, when its text is read as `ys`. -/
theorem value_quoted {xs ys : List Char}
    (h : ∀ rest, stringBody .text (xs ++ '"' :: rest) = some (ys, rest)) (fuel : Nat)
    (rest : List Char) :
    value (fuel + 1) (quoted xs ++ rest) = some (.string (String.ofList ys), rest) := by
  have htext : quoted xs ++ rest = '"' :: (xs ++ '"' :: rest) := by simp [quoted]
  rw [htext, value_quote, h]
  rfl

theorem reads_string {xs ys : List Char}
    (h : ∀ rest, stringBody .text (xs ++ '"' :: rest) = some (ys, rest)) :
    Reads (quoted xs) (.string (String.ofList ys)) := by
  intro fuel rest hfuel _
  obtain ⟨fuel, rfl⟩ : ∃ f, fuel = f + 1 := ⟨fuel - 1, by omega⟩
  exact value_quoted h fuel rest

theorem reads_quoted {xs : List Char} (h : Plain xs) :
    Reads (quoted xs) (.string (String.ofList xs)) :=
  reads_string fun rest => stringBody_plain h rest

theorem reads_number {xs : List Char} {q : ℚ} (hhead : NumberHead xs)
    (h : ∀ rest, Ends rest → number (xs ++ rest) = some (q, rest)) : Reads xs (.number q) := by
  intro fuel rest hfuel hrest
  obtain ⟨fuel, rfl⟩ : ∃ f, fuel = f + 1 := ⟨fuel - 1, by omega⟩
  have hvalue : value (fuel + 1) (xs ++ rest) =
      (number (xs ++ rest)).map fun r => (.number r.1, r.2) := by
    obtain ⟨c, tail, rfl, hc⟩ := hhead
    have hspace : isSpace c = false := by
      rcases hc with hc | rfl
      · by_contra hs
        simp only [isSpace, Bool.or_eq_true, decide_eq_true_eq, Bool.not_eq_false] at hs
        rcases hs with ((rfl | rfl) | rfl) | rfl <;> cases hc
      · rfl
    rw [List.cons_append, value, skip_cons hspace]
    split
    all_goals first
      | rfl
      | next heq =>
          obtain ⟨rfl, -⟩ := List.cons.inj heq
          rcases hc with hc | hc <;> cases hc
  rw [hvalue, h rest hrest]
  rfl

theorem reads_int (n : Int) : Reads (toString n).toList (.number n) :=
  reads_number (numberHead_int n) fun _ hrest => number_int n hrest

theorem reads_null : Reads "null".toList .null := by
  intro fuel rest hfuel _
  obtain ⟨fuel, rfl⟩ : ∃ f, fuel = f + 1 := ⟨fuel - 1, by omega⟩
  show value (fuel + 1) ('n' :: 'u' :: 'l' :: 'l' :: rest) = _
  rw [value, skip_cons (by decide)]
  rfl

theorem reads_bool (b : Bool) : Reads (if b then "true" else "false").toList (.bool b) := by
  intro fuel rest hfuel _
  obtain ⟨fuel, rfl⟩ : ∃ f, fuel = f + 1 := ⟨fuel - 1, by omega⟩
  cases b with
  | true =>
      show value (fuel + 1) ('t' :: 'r' :: 'u' :: 'e' :: rest) = _
      rw [value, skip_cons (by decide)]
      rfl
  | false =>
      show value (fuel + 1) ('f' :: 'a' :: 'l' :: 's' :: 'e' :: rest) = _
      rw [value, skip_cons (by decide)]
      rfl

/-! ## Objects as texts -/

/-- A member whose key is written as it is. -/
def member (key xs : List Char) : List Char := '"' :: (key ++ '"' :: ':' :: xs)

/-- `xs` is the text of some members and of the brace behind them. -/
structure ReadsMembers (xs : List Char) (ms : List (String × Value)) : Prop where
  head : xs.head? = some '"'
  reads : ∀ fuel rest, 2 * xs.length < fuel → members fuel (xs ++ rest) = some (ms, rest)

section

variable {key xs ys : List Char} {v : Value} {fuel : Nat}

/-- A member with a plain key: its value is read next, and what stands behind that. -/
theorem members_member (hkey : Plain key) {c : Char} (hc : isSpace c = false)
    {rest : List Char} (hxs : value fuel xs = some (v, c :: rest)) :
    members (fuel + 1) (member key xs) =
      if c = ',' then
        (members fuel rest).map fun r => ((String.ofList key, v) :: r.1, r.2)
      else if c = '\x7d' then some ([(String.ofList key, v)], rest)
      else none := by
  unfold member
  rw [members, skip_cons (by decide)]
  show (stringBody .text (key ++ '"' :: ':' :: xs)).bind _ = _
  rw [stringBody_plain hkey, Option.bind_some]
  dsimp only
  rw [skip_cons (by decide)]
  show (value fuel xs).bind _ = _
  rw [hxs, Option.bind_some]
  dsimp only
  rw [skip_cons hc]
  by_cases hcomma : c = ','
  · rw [if_pos hcomma, hcomma]
    rfl
  · rw [if_neg hcomma]
    by_cases hbrace : c = '\x7d'
    · rw [if_pos hbrace, hbrace]
      rfl
    · rw [if_neg hbrace]
      split
      · next heq => exact absurd (List.cons.inj heq).1 hcomma
      · next heq => exact absurd (List.cons.inj heq).1 hbrace
      · rfl

/-- Another member follows. -/
theorem members_comma (hkey : Plain key) (hv : Reads xs v) (hfuel : 2 * xs.length < fuel)
    (ys : List Char) :
    members (fuel + 1) (member key (xs ++ ',' :: ys)) =
      (members fuel ys).map fun r => ((String.ofList key, v) :: r.1, r.2) := by
  rw [members_member hkey (by decide) (hv fuel _ hfuel (ends_cons (by decide))), if_pos rfl]

/-- The last member. -/
theorem members_brace (hkey : Plain key) (hv : Reads xs v) (hfuel : 2 * xs.length < fuel)
    (rest : List Char) :
    members (fuel + 1) (member key (xs ++ '\x7d' :: rest)) =
      some ([(String.ofList key, v)], rest) := by
  rw [members_member hkey (by decide) (hv fuel _ hfuel (ends_cons (by decide))),
    if_neg (by decide), if_pos rfl]

theorem readsMembers_cons (hkey : Plain key) (hv : Reads xs v) {ms : List (String × Value)}
    (hys : ReadsMembers ys ms) :
    ReadsMembers (member key (xs ++ ',' :: ys)) ((String.ofList key, v) :: ms) where
  head := rfl
  reads fuel rest hfuel := by
    obtain ⟨fuel, rfl⟩ : ∃ f, fuel = f + 1 := ⟨fuel - 1, by omega⟩
    simp only [member, List.length_cons, List.length_append] at hfuel
    have htext : member key (xs ++ ',' :: ys) ++ rest = member key (xs ++ ',' :: (ys ++ rest)) := by
      simp [member]
    rw [htext, members_comma hkey hv (by omega), hys.reads fuel rest (by omega)]
    rfl

theorem readsMembers_last (hkey : Plain key) (hv : Reads xs v) :
    ReadsMembers (member key (xs ++ ['\x7d'])) [(String.ofList key, v)] where
  head := rfl
  reads fuel rest hfuel := by
    obtain ⟨fuel, rfl⟩ : ∃ f, fuel = f + 1 := ⟨fuel - 1, by omega⟩
    simp only [member, List.length_cons, List.length_append] at hfuel
    have htext : member key (xs ++ ['\x7d']) ++ rest = member key (xs ++ '\x7d' :: rest) := by
      simp [member]
    rw [htext, members_brace hkey hv (by omega)]

theorem value_object (hhead : xs.head? = some '"') (fuel : Nat) :
    value (fuel + 1) ('\x7b' :: xs) =
      (members fuel xs).map fun r => (.object r.1, r.2) := by
  obtain ⟨tail, rfl⟩ : ∃ tail, xs = '"' :: tail := by
    cases xs with
    | nil => cases hhead
    | cons c tail => exact ⟨tail, by rw [Option.some.inj hhead]⟩
  rw [value, skip_cons (by decide)]
  simp only [skip_cons (show isSpace '"' = false by decide)]
  rfl

theorem reads_object {ms : List (String × Value)} (hxs : ReadsMembers xs ms) :
    Reads ('\x7b' :: xs) (.object ms) := by
  intro fuel rest hfuel _
  obtain ⟨fuel, rfl⟩ : ∃ f, fuel = f + 1 := ⟨fuel - 1, by omega⟩
  rw [List.length_cons] at hfuel
  have hhead : (xs ++ rest).head? = some '"' := by
    rw [List.head?_append, hxs.head]
    rfl
  rw [List.cons_append, value_object hhead, hxs.reads fuel rest (by omega)]
  rfl

end

/-- The text of an object, from the keys of its members and their texts. -/
def fieldsText : List (String × String × Value) → List Char
  | [] => ['\x7d']
  | [f] => member f.1.toList (f.2.1.toList ++ ['\x7d'])
  | f :: fs => member f.1.toList (f.2.1.toList ++ ',' :: fieldsText fs)

/-- An object is read as the members of which its text is made. -/
theorem reads_fields {fields : List (String × String × Value)} (hne : fields ≠ [])
    (h : ∀ f ∈ fields, Plain f.1.toList ∧ Reads f.2.1.toList f.2.2) :
    Reads ('\x7b' :: fieldsText fields) (.object (fields.map fun f => (f.1, f.2.2))) := by
  have hmembers : ReadsMembers (fieldsText fields) (fields.map fun f => (f.1, f.2.2)) := by
    induction fields with
    | nil => exact absurd rfl hne
    | cons f fs ih =>
        obtain ⟨⟨hkey, hv⟩, hfs⟩ := List.forall_mem_cons.mp h
        cases fs with
        | nil =>
            have hlast := readsMembers_last hkey hv
            rwa [String.ofList_toList] at hlast
        | cons g fs =>
            have hcons := readsMembers_cons hkey hv (ih (by simp) hfs)
            rwa [String.ofList_toList] at hcons
  exact reads_object hmembers

/-! ## Arrays as texts -/

/-- Neither white space nor the bracket that closes an array comes first. -/
def Opens (xs : List Char) : Prop := ∃ c tail, xs = c :: tail ∧ isSpace c = false ∧ c ≠ ']'

/-- `xs` is the text of some elements and of the bracket behind them. -/
structure ReadsElements (xs : List Char) (vs : List Value) : Prop where
  opens : Opens xs
  reads : ∀ fuel rest, 2 * xs.length < fuel → elements fuel (xs ++ rest) = some (vs, rest)

section

variable {xs ys : List Char} {v : Value}

theorem Opens.append (h : Opens xs) (ys : List Char) : Opens (xs ++ ys) := by
  obtain ⟨c, tail, rfl, hc⟩ := h
  exact ⟨c, tail ++ ys, rfl, hc⟩

theorem readsElements_cons (hopens : Opens xs) (hv : Reads xs v) {vs : List Value}
    (hys : ReadsElements ys vs) : ReadsElements (xs ++ ',' :: ys) (v :: vs) where
  opens := hopens.append _
  reads fuel rest hfuel := by
    obtain ⟨fuel, rfl⟩ : ∃ f, fuel = f + 1 := ⟨fuel - 1, by omega⟩
    simp only [List.length_cons, List.length_append] at hfuel
    rw [elements, List.append_assoc, List.cons_append,
      hv fuel _ (by omega) (ends_cons (by decide)), Option.bind_some]
    dsimp only
    rw [skip_cons (by decide)]
    show (elements fuel (ys ++ rest)).map _ = _
    rw [hys.reads fuel rest (by omega)]
    rfl

theorem readsElements_last (hopens : Opens xs) (hv : Reads xs v) :
    ReadsElements (xs ++ [']']) [v] where
  opens := hopens.append _
  reads fuel rest hfuel := by
    obtain ⟨fuel, rfl⟩ : ∃ f, fuel = f + 1 := ⟨fuel - 1, by omega⟩
    simp only [List.length_cons, List.length_append, List.length_nil] at hfuel
    rw [elements, List.append_assoc, List.singleton_append,
      hv fuel _ (by omega) (ends_cons (by decide)), Option.bind_some]
    dsimp only
    rw [skip_cons (by decide)]
    rfl

theorem value_array (hopens : Opens xs) (fuel : Nat) :
    value (fuel + 1) ('[' :: xs) = (elements fuel xs).map fun r => (.array r.1, r.2) := by
  obtain ⟨c, tail, rfl, hspace, hbracket⟩ := hopens
  rw [value, skip_cons (by decide)]
  simp only [skip_cons hspace]
  split
  · next heq => exact absurd (List.cons.inj heq).1 hbracket
  · rfl

theorem reads_array {vs : List Value} (hxs : ReadsElements xs vs) :
    Reads ('[' :: xs) (.array vs) := by
  intro fuel rest hfuel _
  obtain ⟨fuel, rfl⟩ : ∃ f, fuel = f + 1 := ⟨fuel - 1, by omega⟩
  rw [List.length_cons] at hfuel
  rw [List.cons_append, value_array (hxs.opens.append rest), hxs.reads fuel rest (by omega)]
  rfl

theorem reads_empty : Reads ['[', ']'] (.array []) := by
  intro fuel rest hfuel _
  obtain ⟨fuel, rfl⟩ : ∃ f, fuel = f + 1 := ⟨fuel - 1, by omega⟩
  rw [List.cons_append, value, skip_cons (by decide)]
  rfl

end

/-- The text of an array behind its opening bracket, from the texts of its elements. -/
def itemsText : List (String × Value) → List Char
  | [] => [']']
  | [x] => x.1.toList ++ [']']
  | x :: xs => x.1.toList ++ ',' :: itemsText xs

theorem itemsText_cons (x : String × Value) (xs : List (String × Value)) :
    itemsText (x :: xs) = x.1.toList ++ ((if xs = [] then [] else [',']) ++ itemsText xs) := by
  cases xs with
  | nil => rfl
  | cons y ys => rfl

/-- An array is read as the elements of which its text is made. -/
theorem reads_items {items : List (String × Value)}
    (h : ∀ x ∈ items, Opens x.1.toList ∧ Reads x.1.toList x.2) :
    Reads ('[' :: itemsText items) (.array (items.map Prod.snd)) := by
  cases items with
  | nil => exact reads_empty
  | cons x xs =>
      refine reads_array ?_
      induction xs generalizing x with
      | nil =>
          obtain ⟨⟨hopens, hv⟩, -⟩ := List.forall_mem_cons.mp h
          exact readsElements_last hopens hv
      | cons y ys ih =>
          obtain ⟨⟨hopens, hv⟩, hrest⟩ := List.forall_mem_cons.mp h
          exact readsElements_cons hopens hv (ih y hrest)

theorem parse_of_reads {text : String} {v : Value} (h : Reads text.toList v) :
    parse text = some v := by
  have hvalue := h (2 * text.toList.length + 1) [] (by omega) ends_nil
  rw [List.append_nil] at hvalue
  unfold parse
  rw [hvalue]
  rfl

/-! ## Reading an object member by member -/

section

variable {key xs ys rest : List Char} {v : Value} {ms : List (String × Value)} {fuel : Nat}

/-- The members begin with one that has the plain key, and the value that is read behind it. -/
theorem members_value (hkey : Plain key) (h : members fuel (member key xs) = some (ms, rest)) :
    ∃ f v r ms', fuel = f + 1 ∧ value f xs = some (v, r) ∧ ms = (String.ofList key, v) :: ms' := by
  cases fuel with
  | zero => cases h
  | succ fuel =>
      unfold member at h
      rw [members, skip_cons (by decide)] at h
      change (stringBody .text (key ++ '"' :: ':' :: xs)).bind _ = _ at h
      rw [stringBody_plain hkey, Option.bind_some] at h
      dsimp only at h
      rw [skip_cons (by decide)] at h
      change (value fuel xs).bind _ = _ at h
      obtain ⟨⟨v, r⟩, hv, h⟩ := Option.bind_eq_some_iff.mp h
      refine ⟨fuel, v, r, ?_⟩
      dsimp only at h
      split at h
      · obtain ⟨⟨ms', _⟩, _, heq⟩ := Option.map_eq_some_iff.mp h
        exact ⟨ms', rfl, hv, (Prod.mk.inj heq).1.symm⟩
      · exact ⟨[], rfl, hv, (Prod.mk.inj (Option.some.inj h)).1.symm⟩
      · cases h

/-- A string is the value of the first member, and what follows it is read next. -/
theorem members_quoted (hkey : Plain key) (hxs : Plain xs)
    (h : members fuel (member key (quoted xs ++ ',' :: ys)) = some (ms, rest)) :
    ∃ f ms', members f ys = some (ms', rest) ∧
      ms = (String.ofList key, .string (String.ofList xs)) :: ms' := by
  obtain ⟨f, v, r, ms', rfl, hv, -⟩ := members_value hkey h
  cases f with
  | zero => cases hv
  | succ f =>
      have hread : value (f + 1) (quoted xs ++ ',' :: ys) =
          some (.string (String.ofList xs), ',' :: ys) :=
        value_quoted (fun rest => stringBody_plain hxs rest) f _
      rw [members_member hkey (by decide) hread, if_pos rfl] at h
      obtain ⟨⟨ms'', rest'⟩, hys, heq⟩ := Option.map_eq_some_iff.mp h
      obtain ⟨rfl, rfl⟩ := Prod.mk.inj heq
      exact ⟨_, ms'', hys, rfl⟩

/-- A string of unknown text is the value of the first member. -/
theorem members_string (hkey : Plain key)
    (h : members fuel (member key ('"' :: ys)) = some (ms, rest)) :
    ∃ s r ms', stringBody .text ys = some (s, r) ∧
      ms = (String.ofList key, .string (String.ofList s)) :: ms' := by
  obtain ⟨f, v, r, ms', rfl, hv, rfl⟩ := members_value hkey h
  cases f with
  | zero => cases hv
  | succ f =>
      rw [value_quote] at hv
      obtain ⟨⟨s, r'⟩, hs, heq⟩ := Option.map_eq_some_iff.mp hv
      obtain ⟨rfl, rfl⟩ := Prod.mk.inj heq
      exact ⟨s, r', ms', hs, rfl⟩

end

end Json
