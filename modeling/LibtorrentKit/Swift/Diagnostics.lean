/-
  What a diagnostic shows. `TorrentError.sanitize` limits the text, looks for the markers of a
  source and only then leaves the control characters out: a marker with a control character
  between its letters is not found, and stands in the result. `Settled` is the condition under
  which this does not happen.
-/
import LibtorrentKit.Lib.Search
import LibtorrentKit.Swift.TorrentEvent

namespace LibtorrentKit

namespace Swift

/-! ## The documented platform -/

/-- Simple case folding, of the code points that it takes to ASCII. -/
def foldCase (c : Char) : Char :=
  if c = 'ſ' then 's' else if c = '\u212A' then 'k' else c.toLower

/-- The code points of the general categories Cc and Cf, as ranges. -/
def controlRanges : List (Nat × Nat) :=
  [(0x0, 0x1F), (0x7F, 0x9F), (0xAD, 0xAD), (0x600, 0x605), (0x61C, 0x61C), (0x6DD, 0x6DD),
   (0x70F, 0x70F), (0x890, 0x891), (0x8E2, 0x8E2), (0x180E, 0x180E), (0x200B, 0x200F),
   (0x202A, 0x202E), (0x2060, 0x2064), (0x2066, 0x206F), (0xFEFF, 0xFEFF), (0xFFF9, 0xFFFB),
   (0x110BD, 0x110BD), (0x110CD, 0x110CD), (0x13430, 0x1343F), (0x1BCA0, 0x1BCA3),
   (0x1D173, 0x1D17A), (0xE0001, 0xE0001), (0xE0020, 0xE007F)]

def isControl (c : Char) : Bool :=
  controlRanges.any fun range => range.1 ≤ c.toNat && c.toNat ≤ range.2

/-- A search on code points that takes no account of case. -/
def containsCaseless (s pattern : String) : Bool :=
  Search.occurs (fun _ => false) foldCase (pattern.toList.map foldCase) s.toList

/-- The platform does what is documented of it. -/
structure Foundation.Documented (platform : Foundation) : Prop where
  characters_join : ∀ s, String.join (platform.characters s) = s
  characters_ne : ∀ s, "" ∉ platform.characters s
  contains_eq : ∀ s pattern,
    platform.localizedCaseInsensitiveContains s pattern = containsCaseless s pattern
  control_eq : ∀ c, platform.controlCharacters c = isControl c

namespace TorrentError

/-! ## Markers -/

/-- The text shows a marker. -/
def Exposes (s : String) : Prop := ∃ pattern ∈ patterns, containsCaseless s pattern = true

instance (s : String) : Decidable (Exposes s) := inferInstanceAs (Decidable (∃ _ ∈ _, _))

/-- The control characters that `sanitize` leaves out. -/
def dropped (c : Char) : Bool := isControl c && c != '\n'

/-- The text has a marker in it, with no more than such control characters between its letters. -/
def Threads (s : String) : Prop :=
  ∃ pattern ∈ patterns,
    Search.occurs dropped foldCase (pattern.toList.map foldCase) s.toList = true

instance (s : String) : Decidable (Threads s) := inferInstanceAs (Decidable (∃ _ ∈ _, _))

structure Presentable (s : String) : Prop where
  no_marker : ¬Exposes s
  no_control : ∀ c ∈ s.toList, isControl c = true → c = '\n'

def notice : String := "Sensitive diagnostic details were removed."

/-- The text that the limit lets through. -/
def limited (platform : Foundation) (input : String) : String :=
  String.join ((platform.characters input).take 512)

def withoutControls (s : String) : String :=
  String.ofList (s.toList.filter fun c => !dropped c)

/-- The limited text shows its marker outright, or has none in it. -/
def Guarded (platform : Foundation) (input : String) : Prop :=
  Exposes (limited platform input) ∨ ¬Threads (limited platform input)

instance (platform : Foundation) (input : String) : Decidable (Guarded platform input) :=
  inferInstanceAs (Decidable (_ ∨ _))

/-- Without its control characters it is also within the limit. -/
def Settled (platform : Foundation) (input : String) : Prop :=
  Exposes (limited platform input) ∨
    ¬Threads (limited platform input) ∧
      (platform.characters (withoutControls (limited platform input))).length ≤ 512

theorem exposes_withoutControls {s : String} : Exposes (withoutControls s) ↔ Threads s := by
  have hsearch : ∀ pattern : String, containsCaseless (withoutControls s) pattern =
      Search.occurs dropped foldCase (pattern.toList.map foldCase) s.toList := by
    intro pattern
    rw [containsCaseless, withoutControls, String.toList_ofList, Search.occurs_filter]
  simp only [Exposes, Threads, hsearch]

theorem mem_withoutControls {c : Char} {s : String} :
    c ∈ (withoutControls s).toList ↔ c ∈ s.toList ∧ dropped c = false := by
  simp [withoutControls]

theorem eq_newline_of_not_dropped {c : Char} (h : dropped c = false) (hc : isControl c = true) :
    c = '\n' := by
  simpa [dropped, hc] using h

theorem withoutControls_eq_self {s : String} (h : ∀ c ∈ s.toList, dropped c = false) :
    withoutControls s = s := by
  have hfilter : s.toList.filter (fun c => !dropped c) = s.toList :=
    List.filter_eq_self.mpr fun c hc => by simp [h c hc]
  rw [withoutControls, hfilter, String.ofList_toList]

theorem withoutControls_twice (s : String) :
    withoutControls (withoutControls s) = withoutControls s :=
  withoutControls_eq_self fun _ hc => (mem_withoutControls.mp hc).2

theorem notice_presentable : Presentable notice := by
  have hall : notice.toList.all (fun c => !isControl c) = true := by decide
  refine ⟨by decide, fun c hc hcontrol => ?_⟩
  have hplain := List.all_eq_true.mp hall c hc
  rw [hcontrol] at hplain
  exact Bool.noConfusion hplain

theorem withoutControls_notice : withoutControls notice = notice := by decide

/-! ## The limit -/

theorem join_eq_empty {cs : List String} (hne : "" ∉ cs) (h : String.join cs = "") : cs = [] := by
  cases cs with
  | nil => rfl
  | cons c cs =>
    have hc : c = "" := by
      have hlist := congrArg String.toList h
      rw [String.join_cons, String.toList_append] at hlist
      exact String.toList_eq_nil_iff.mp (List.append_eq_nil_iff.mp hlist).1
    exact absurd (hc ▸ List.mem_cons_self) hne

theorem length_le_join {cs : List String} (hne : "" ∉ cs) :
    cs.length ≤ (String.join cs).length := by
  induction cs with
  | nil => simp
  | cons c cs ih =>
    rw [List.mem_cons, not_or] at hne
    have hcs := ih hne.2
    have hc : c.length ≠ 0 := fun h => hne.1 (String.length_eq_zero_iff.mp h).symm
    rw [String.join_cons, String.length_append, List.length_cons]
    omega

section

variable {platform : Foundation} (documented : platform.Documented)
include documented

theorem limited_append (s : String) :
    limited platform s ++ String.join ((platform.characters s).drop 512) = s := by
  rw [limited, ← String.join_append, List.take_append_drop, documented.characters_join]

theorem mem_of_mem_limited {c : Char} {s : String} (h : c ∈ (limited platform s).toList) :
    c ∈ s.toList := by
  rw [← limited_append documented s, String.toList_append]
  exact List.mem_append_left _ h

theorem limited_eq_self_iff {s : String} :
    limited platform s = s ↔ (platform.characters s).length ≤ 512 := by
  constructor
  · intro h
    have hcut := limited_append documented s
    rw [h] at hcut
    have hrest : String.join ((platform.characters s).drop 512) = "" :=
      String.append_eq_left_iff.mp hcut
    have hne : "" ∉ (platform.characters s).drop 512 := fun h =>
      documented.characters_ne s (List.mem_of_mem_drop h)
    exact List.drop_eq_nil_iff.mp (join_eq_empty hne hrest)
  · intro h
    rw [limited, List.take_of_length_le h, documented.characters_join]

theorem limited_of_length {s : String} (h : s.length ≤ 512) : limited platform s = s := by
  have hlength := length_le_join (documented.characters_ne s)
  rw [documented.characters_join] at hlength
  exact (limited_eq_self_iff documented).mpr (by omega)

/-! ## The sanitised text -/

theorem sanitize_eq (input : String) :
    sanitize platform input =
      if Exposes (limited platform input) then notice
      else withoutControls (limited platform input) := by
  have hmarker : (patterns.any fun pattern =>
      platform.localizedCaseInsensitiveContains (limited platform input) pattern) = true ↔
      Exposes (limited platform input) := by
    simp [Exposes, documented.contains_eq]
  have hkeep : (fun c => !platform.controlCharacters c || c == '\n') = fun c => !dropped c := by
    funext c
    simp [dropped, documented.control_eq, bne]
  by_cases h : Exposes (limited platform input)
  · rw [if_pos h]
    exact if_pos (hmarker.mpr h)
  · rw [if_neg h, withoutControls, ← hkeep]
    exact if_neg fun hm => h (hmarker.mp hm)

theorem sanitize_of_exposes {input : String} (h : Exposes (limited platform input)) :
    sanitize platform input = notice := by rw [sanitize_eq documented, if_pos h]

theorem sanitize_of_not {input : String} (h : ¬Exposes (limited platform input)) :
    sanitize platform input = withoutControls (limited platform input) := by
  rw [sanitize_eq documented, if_neg h]

theorem limited_notice : limited platform notice = notice :=
  limited_of_length documented (by decide)

theorem sanitize_notice : sanitize platform notice = notice := by
  have hlimited := limited_notice documented
  rw [sanitize_of_not documented (hlimited.symm ▸ notice_presentable.no_marker), hlimited,
    withoutControls_notice]

/-- Controls are gone whatever the input. -/
theorem sanitize_no_control {input : String} :
    ∀ c ∈ (sanitize platform input).toList, isControl c = true → c = '\n' := by
  intro c hc hcontrol
  by_cases h : Exposes (limited platform input)
  · rw [sanitize_of_exposes documented h] at hc
    exact notice_presentable.no_control c hc hcontrol
  · rw [sanitize_of_not documented h] at hc
    exact eq_newline_of_not_dropped (mem_withoutControls.mp hc).2 hcontrol

theorem sanitize_hides_iff {input : String} :
    ¬Exposes (sanitize platform input) ↔ Guarded platform input := by
  by_cases h : Exposes (limited platform input)
  · rw [sanitize_of_exposes documented h]
    exact ⟨fun _ => .inl h, fun _ => notice_presentable.no_marker⟩
  · rw [sanitize_of_not documented h, exposes_withoutControls, Guarded]
    exact ⟨.inr, fun hg => hg.resolve_left h⟩

/-- A text without markers that has lost its control characters stays as it is when it is within
the limit. -/
theorem sanitize_withoutControls_iff {s : String} (h : ¬Exposes (withoutControls s)) :
    sanitize platform (withoutControls s) = withoutControls s ↔
      (platform.characters (withoutControls s)).length ≤ 512 := by
  rw [← limited_eq_self_iff documented]
  constructor
  · intro hfix
    by_cases hmarker : Exposes (limited platform (withoutControls s))
    · rw [sanitize_of_exposes documented hmarker] at hfix
      rw [← hfix] at hmarker ⊢
      exact limited_notice documented
    · rw [sanitize_of_not documented hmarker] at hfix
      have hclean : ∀ c ∈ (limited platform (withoutControls s)).toList, dropped c = false :=
        fun _ hc => (mem_withoutControls.mp (mem_of_mem_limited documented hc)).2
      rwa [withoutControls_eq_self hclean] at hfix
  · intro hlimited
    rw [sanitize_of_not documented (hlimited.symm ▸ h), hlimited, withoutControls_twice]

theorem sanitize_settled_iff {input : String} :
    Presentable (sanitize platform input) ∧
        sanitize platform (sanitize platform input) = sanitize platform input ↔
      Settled platform input := by
  by_cases h : Exposes (limited platform input)
  · rw [sanitize_of_exposes documented h]
    exact ⟨fun _ => .inl h, fun _ => ⟨notice_presentable, sanitize_notice documented⟩⟩
  · have hout := sanitize_of_not documented h
    constructor
    · rintro ⟨hpresentable, hfix⟩
      have hmarker := hpresentable.no_marker
      rw [hout] at hmarker hfix
      exact .inr ⟨fun hthreads => hmarker (exposes_withoutControls.mpr hthreads),
        (sanitize_withoutControls_iff documented hmarker).mp hfix⟩
    · intro hsettled
      obtain ⟨hthreads, hlength⟩ := hsettled.resolve_left h
      have hmarker := fun hexposes => hthreads (exposes_withoutControls.mp hexposes)
      refine ⟨⟨hout ▸ hmarker, sanitize_no_control documented⟩, ?_⟩
      rw [hout]
      exact (sanitize_withoutControls_iff documented hmarker).mpr hlength

end

/-! ## Errors -/

/-- No marker shows in the error. -/
def Discreet (e : TorrentError) : Prop := ¬Exposes e.category ∧ ¬Exposes e.description

theorem guarded_nativeCategory {platform : Foundation} (documented : platform.Documented) :
    Guarded platform "LibtorrentNative" := by
  have hlimited : limited platform "LibtorrentNative" = "LibtorrentNative" :=
    limited_of_length documented (by decide)
  rw [Guarded, hlimited]
  exact .inr (by decide)

/-- A diagnostic is free of markers and of control characters, and sanitising it again changes
nothing, exactly when the text that the limit lets through shows its marker outright, or has no
marker with control characters in between and is within the limit without them; an error that
is built from such texts shows no marker. -/
theorem diagnostics_settled {platform : Foundation} (documented : platform.Documented) :
    (∀ input,
      Presentable (sanitize platform input) ∧
          sanitize platform (sanitize platform input) = sanitize platform input ↔
        Settled platform input) ∧
    (∀ operation code category description,
      Discreet (make platform operation code category description) ↔
        Guarded platform category ∧ Guarded platform description) ∧
    ∀ operation code description,
      Discreet (native platform operation code description) ↔
        Guarded platform (description.getD "The native operation failed.") := by
  have hmake : ∀ operation code category description,
      Discreet (make platform operation code category description) ↔
        Guarded platform category ∧ Guarded platform description := by
    intro operation code category description
    exact and_congr (sanitize_hides_iff documented) (sanitize_hides_iff documented)
  refine ⟨fun input => sanitize_settled_iff documented, hmake, ?_⟩
  intro operation code description
  rw [native, hmake]
  exact and_iff_right (guarded_nativeCategory documented)

/-- Text services that take every code point for a character. -/
def codePoints : Foundation where
  characters s := s.toList.map String.singleton
  localizedCaseInsensitiveContains := containsCaseless
  controlCharacters := isControl

theorem codePoints_documented : codePoints.Documented where
  characters_join s := by
    have hjoin : ∀ cs : List Char, String.join (cs.map String.singleton) = String.ofList cs := by
      intro cs
      induction cs with
      | nil => rfl
      | cons c cs ih => rw [List.map_cons, String.join_cons, ih, ← String.ofList_cons]
    rw [codePoints, hjoin, String.ofList_toList]
  characters_ne s h := by
    obtain ⟨c, -, hc⟩ := List.mem_map.mp h
    exact absurd (congrArg String.toList hc) (by simp)
  contains_eq _ _ := rfl
  control_eq _ := rfl

/-- A magnet link as it is, and one with a control character in it. -/
theorem magnetLinks_settled :
    Settled codePoints "bad Magnet:?xt=urn" ∧ ¬Guarded codePoints "magnet\u0000:?xt=urn" ∧
      Presentable (sanitize codePoints "bad Magnet:?xt=urn") := by
  have hsettled : Settled codePoints "bad Magnet:?xt=urn" := .inl (by decide +kernel)
  refine ⟨hsettled, by decide +kernel, ?_⟩
  exact (((diagnostics_settled codePoints_documented).1 _).mpr hsettled).1

/-- The control character goes after the search: the link is there to see, and sanitising the
text again changes it. -/
theorem brokenMagnet_exposed :
    codePoints.Documented ∧
      sanitize codePoints "magnet\u0000:?xt=urn" = "magnet:?xt=urn" ∧
      Exposes (sanitize codePoints "magnet\u0000:?xt=urn") ∧
      sanitize codePoints (sanitize codePoints "magnet\u0000:?xt=urn") ≠
        sanitize codePoints "magnet\u0000:?xt=urn" ∧
      ¬Discreet (native codePoints .event 12 (some "magnet\u0000:?xt=urn")) := by
  refine ⟨codePoints_documented, ?_, ?_, ?_, ?_⟩
  · decide +kernel
  · decide +kernel
  · decide +kernel
  · exact fun h => h.2 (by decide +kernel)

end TorrentError

end Swift

end LibtorrentKit
