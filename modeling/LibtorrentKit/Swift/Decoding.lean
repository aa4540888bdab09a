/-
  The texts of events, as the Swift layer reads them.

  The identifier of a torrent goes into every event text as it is. `decodable_iff` says for which
  identifiers the texts can be read: those without a quotation mark, a backslash or a control
  character. The identifiers that the Swift layer makes are such (`plain_of_uuid`).
  `World.texts_decode` says the same of what a run of the session has handed out.

  The fields of a text are listed with the values that they denote (`statusFields`,
  `EventForm.fields`); a text is read as its fields, and the decoders look these up.
-/
import LibtorrentKit.Lib.JsonTexts
import LibtorrentKit.Session.Draining
import LibtorrentKit.Swift.TorrentEvent

namespace LibtorrentKit

open Json

/-! ## The progress -/

/-- The progress as a number between 0 and 1. -/
def progressValue (ppm : Int) : ℚ := (max 0 (min ppm 1000000) : Int) / 1000000

/-- `fraction` yields at most `digits` digits; followed by zeros they are the last ones of `n`. -/
theorem fraction_digits (digits n : Nat) :
    Digits (fraction digits n).toList ∧ (fraction digits n).toList.length ≤ digits ∧
      Nat.ofDigitChars 10 (fraction digits n).toList 0 *
        10 ^ (digits - (fraction digits n).toList.length) = n % 10 ^ digits := by
  induction digits with
  | zero =>
      refine ⟨fun c hc => (by cases hc), Nat.le_refl _, ?_⟩
      rw [pow_zero, Nat.mod_one]
      rfl
  | succ digits ih =>
      unfold fraction
      split
      · next hzero =>
          refine ⟨fun c hc => (by cases hc), Nat.zero_le _, ?_⟩
          rw [hzero]
          exact Nat.zero_mul _
      · obtain ⟨hdigits, hlength, hvalue⟩ := ih
        have hdigit : n / 10 ^ digits % 10 < 10 := Nat.mod_lt _ (by decide)
        have htext : (toString (n / 10 ^ digits % 10) ++ fraction digits n).toList =
            (n / 10 ^ digits % 10).digitChar :: (fraction digits n).toList := by
          rw [String.toList_append]
          show (Nat.repr _).toList ++ _ = _
          rw [Nat.toList_repr, Nat.toDigits_of_lt_base hdigit]
          rfl
        rw [htext, List.length_cons]
        refine ⟨List.forall_mem_cons.mpr ⟨?_, hdigits⟩, by omega, ?_⟩
        · rw [Nat.isDigit_digitChar]
          exact decide_eq_true hdigit
        · rw [Nat.ofDigitChars_cons_digitChar_of_lt_ten hdigit,
            Nat.ofDigitChars_eq_ofDigitChars_zero, Nat.mod_pow_succ, ← hvalue, Nat.add_mul,
            Nat.mul_zero, Nat.zero_add, Nat.add_sub_add_right]
          have hpow : 10 ^ (fraction digits n).toList.length *
              10 ^ (digits - (fraction digits n).toList.length) = 10 ^ digits := by
            rw [← pow_add, Nat.add_sub_cancel' hlength]
          rw [Nat.mul_right_comm, hpow, Nat.add_comm]

theorem digits_single {n : Nat} (hn : n < 10) : (toString n).toList = [n.digitChar] := by
  show (Nat.repr n).toList = _
  rw [Nat.toList_repr, Nat.toDigits_of_lt_base hn]

theorem whole_single {n : Nat} (hn : n < 10) : Whole [n.digitChar] := by
  rw [← Nat.toDigits_of_lt_base hn]
  exact whole_toDigits n

theorem value_single {n : Nat} (hn : n < 10) (cs : List Char) :
    Nat.ofDigitChars 10 (n.digitChar :: cs) 0 = 10 ^ cs.length * n + Nat.ofDigitChars 10 cs 0 := by
  rw [Nat.ofDigitChars_cons_digitChar_of_lt_ten hn, Nat.ofDigitChars_eq_ofDigitChars_zero,
    Nat.mul_zero, Nat.zero_add]

/-- From a hundred millionths on, the digits stand behind the point. -/
theorem number_fraction {n : Nat} (hpos : 0 < n) (hn : n < 1000000) {rest : List Char}
    (hrest : Ends rest) :
    number ('0' :: '.' :: ((fraction 6 n).toList ++ rest)) =
      some ((n : ℚ) / 1000000, rest) := by
  obtain ⟨hdigits, hlength, hvalue⟩ := fraction_digits 6 n
  rw [Nat.mod_eq_of_lt (by omega)] at hvalue
  generalize (fraction 6 n).toList = ds at hdigits hlength hvalue
  have hne : ds ≠ [] := by
    rintro rfl
    rw [Nat.ofDigitChars_nil, Nat.zero_mul] at hvalue
    omega
  have hwhole : wholePart ('0' :: '.' :: (ds ++ rest)) = some (['0'], '.' :: (ds ++ rest)) :=
    wholePart_append (whole_toDigits 0) (noDigit_cons (by decide))
  rw [number_of_digit (by decide), magnitude_parts hwhole
    (fractionPart_append hdigits hne hrest.noDigit) (exponentPart_none hrest), mul_one]
  have hzero : Nat.ofDigitChars 10 (['0'] ++ ds) 0 = Nat.ofDigitChars 10 ds 0 := by
    rw [List.singleton_append, Nat.ofDigitChars_cons]
    rfl
  have hcast : (n : ℚ) = Nat.ofDigitChars 10 ds 0 * 10 ^ (6 - ds.length) := by
    rw [← hvalue]
    push_cast
    rfl
  have hpow : (10 : ℚ) ^ ds.length * 10 ^ (6 - ds.length) = 1000000 := by
    rw [← pow_add, Nat.add_sub_cancel' hlength]
    norm_num
  rw [hzero, hcast, ← hpow]
  congr 2
  field_simp

/-- One digit, perhaps more behind the point, and a negative exponent. -/
theorem reads_scientific {a : Nat} (ha : a < 10) {ds expo : List Char} (hds : Digits ds)
    (hexpo : Digits expo) (hne : expo ≠ []) {q : ℚ}
    (hq : (Nat.ofDigitChars 10 (a.digitChar :: ds) 0 : ℚ) / 10 ^ ds.length *
      (1 / 10 ^ Nat.ofDigitChars 10 expo 0) = q) :
    Reads (a.digitChar :: ((if ds = [] then [] else '.' :: ds) ++ 'e' :: '-' :: expo))
      (.number q) := by
  have hdigit : a.digitChar.isDigit = true := by
    rw [Nat.isDigit_digitChar]
    exact decide_eq_true ha
  refine reads_number ⟨_, _, rfl, Or.inl hdigit⟩ fun rest hrest => ?_
  have htail : NoDigit ('e' :: '-' :: (expo ++ rest)) := noDigit_cons (by decide)
  have hwhole : ∀ xs, NoDigit xs → wholePart (a.digitChar :: xs) = some ([a.digitChar], xs) :=
    fun xs hxs => wholePart_append (whole_single ha) hxs
  have hexponent := exponentPart_negative hexpo hne hrest.noDigit
  rw [List.cons_append, number_of_digit hdigit, List.append_assoc, List.cons_append,
    List.cons_append, ← hq]
  by_cases hnil : ds = []
  · subst hnil
    rw [if_pos rfl, List.nil_append]
    exact magnitude_parts (hwhole _ htail) (fractionPart_none (by simp)) hexponent
  · rw [if_neg hnil]
    exact magnitude_parts (hwhole _ (noDigit_cons (by decide)))
      (fractionPart_append hds hnil htail) hexponent

/-- The progress text is read as the progress. -/
theorem reads_progress (ppm : Int) :
    Reads (progressText ppm).toList (.number (progressValue ppm)) := by
  have hvalue : progressValue ppm = ((min ppm.toNat 1000000 : Nat) : ℚ) / 1000000 := by
    unfold progressValue
    congr 1
    have : max 0 (min ppm 1000000) = ((min ppm.toNat 1000000 : Nat) : Int) := by omega
    rw [this]
    rfl
  rw [hvalue]
  unfold progressText
  dsimp only
  generalize ppm.toNat = n
  by_cases hzero : n = 0
  · have hq : ((min n 1000000 : Nat) : ℚ) / 1000000 = ((0 : Int) : ℚ) := by simp [hzero]
    rw [if_pos hzero, hq]
    exact reads_int 0
  · rw [if_neg hzero]
    by_cases hone : 1000000 ≤ n
    · have hq : ((min n 1000000 : Nat) : ℚ) / 1000000 = ((1 : Int) : ℚ) := by
        rw [Nat.min_eq_right hone]
        norm_num
      rw [if_pos hone, hq]
      exact reads_int 1
    · rw [if_neg hone, Nat.min_eq_left (by omega)]
      by_cases hlarge : 100 ≤ n
      · rw [if_pos hlarge, String.toList_append]
        refine reads_number ⟨'0', _, rfl, Or.inl rfl⟩ fun rest hrest => ?_
        exact number_fraction (by omega) (by omega) hrest
      · rw [if_neg hlarge]
        by_cases hmiddle : 10 ≤ n
        · -- two digits, the first one in front of the point
          have ha : n / 10 < 10 := by omega
          have hb : n % 10 < 10 := Nat.mod_lt _ (by decide)
          have hn : (n : ℚ) = 10 * (n / 10 : Nat) + (n % 10 : Nat) := by
            exact_mod_cast (Nat.div_add_mod n 10).symm
          have hfive : Nat.ofDigitChars 10 ['0', '5'] 0 = 5 := by decide
          rw [if_pos hmiddle, String.toList_append, String.toList_append, digits_single ha]
          by_cases hlast : n % 10 = 0
          · rw [if_pos hlast]
            refine @reads_scientific _ ha [] ['0', '5'] (by simp [Digits]) (by simp [Digits])
              (by simp) _ ?_
            rw [value_single ha, Nat.ofDigitChars_nil, hfive, hn, hlast]
            push_cast
            simp only [List.length_nil, pow_zero]
            ring
          · rw [if_neg hlast, String.toList_append, digits_single hb]
            refine @reads_scientific _ ha _ ['0', '5'] (whole_single hb).digits
              (by simp [Digits]) (by simp) _ ?_
            rw [value_single ha, value_single hb, Nat.ofDigitChars_nil, hfive]
            conv_rhs => rw [hn]
            push_cast
            simp only [List.length_cons, List.length_nil]
            ring
        · have ha : n < 10 := by omega
          have hsix : Nat.ofDigitChars 10 ['0', '6'] 0 = 6 := by decide
          rw [if_neg hmiddle, String.toList_append, digits_single ha]
          refine @reads_scientific _ ha [] ['0', '6'] (by simp [Digits]) (by simp [Digits])
            (by simp) _ ?_
          rw [value_single ha, Nat.ofDigitChars_nil, hsix]
          push_cast
          simp only [List.length_nil, pow_zero]
          ring

/-! ## The status -/

/-- A member that is a string, written as it is. -/
def textField (key s : String) : String × String × Value := (key, "\"" ++ s ++ "\"", .string s)

def numberField (key : String) (n : Int) : String × String × Value :=
  (key, toString n, .number n)

def boolField (key : String) (b : Bool) : String × String × Value := (key, boolText b, .bool b)

/-- The members that the fields stand for. -/
def membersOf (fields : List (String × String × Value)) : List (String × Value) :=
  fields.map fun f => (f.1, f.2.2)

/-- A field is read as its value. -/
def FieldReads (f : String × String × Value) : Prop :=
  Plain f.1.toList ∧ Reads f.2.1.toList f.2.2

theorem quoted_toList (s : String) : ("\"" ++ s ++ "\"").toList = quoted s.toList := by
  simp [String.toList_append, quoted]

theorem textField_reads {key s : String} (hkey : Plain key.toList) (hs : Plain s.toList) :
    FieldReads (textField key s) := by
  refine ⟨hkey, ?_⟩
  show Reads ("\"" ++ s ++ "\"").toList (.string s)
  have hread := reads_quoted hs
  rwa [String.ofList_toList, ← quoted_toList] at hread

theorem numberField_reads {key : String} (hkey : Plain key.toList) (n : Int) :
    FieldReads (numberField key n) := ⟨hkey, reads_int n⟩

theorem boolField_reads {key : String} (hkey : Plain key.toList) (b : Bool) :
    FieldReads (boolField key b) := ⟨hkey, reads_bool b⟩

/-- The fields of `status_json`. -/
def statusFields (status : TorrentStatus) (stopped : Bool) : List (String × String × Value) :=
  let paused := stopped || status.paused
  [textField "state" (stateName status stopped),
    ("progress", progressText status.progressPpm, .number (progressValue status.progressPpm)),
    numberField "totalBytes" status.totalWanted,
    numberField "completedBytes" status.totalWantedDone,
    numberField "downloadRate" (if stopped then 0 else status.downloadPayloadRate),
    numberField "uploadRate" (if stopped then 0 else status.uploadPayloadRate),
    numberField "connectedPeers" (if stopped then 0 else status.numPeers),
    boolField "isPaused" paused,
    boolField "hasMetadata" status.hasMetadata,
    boolField "isParticipatingInSwarm" (!stopped && !paused)]

/-! What the source writes between the keys and the values. -/

theorem brace_toList : "\x7b\"".toList = ['\x7b', '"'] := rfl

theorem comma_toList : ",\"".toList = [',', '"'] := rfl

theorem colon_toList : "\":".toList = ['"', ':'] := rfl

theorem close_toList : "\x7d".toList = ['\x7d'] := rfl

theorem statusJson_text (status : TorrentStatus) (stopped : Bool) :
    (statusJson status stopped).toList = '\x7b' :: fieldsText (statusFields status stopped) := by
  -- the pieces that the source writes, cut at the keys
  have hstate : "\x7b\"state\":\"" = "\x7b\"" ++ ("state" ++ ("\":" ++ "\"")) := rfl
  have hprogress : ",\"progress\":" = ",\"" ++ ("progress" ++ "\":") := rfl
  have htotalBytes : ",\"totalBytes\":" = ",\"" ++ ("totalBytes" ++ "\":") := rfl
  have hcompletedBytes : ",\"completedBytes\":" = ",\"" ++ ("completedBytes" ++ "\":") := rfl
  have hdownloadRate : ",\"downloadRate\":" = ",\"" ++ ("downloadRate" ++ "\":") := rfl
  have huploadRate : ",\"uploadRate\":" = ",\"" ++ ("uploadRate" ++ "\":") := rfl
  have hconnectedPeers : ",\"connectedPeers\":" = ",\"" ++ ("connectedPeers" ++ "\":") := rfl
  have hisPaused : ",\"isPaused\":" = ",\"" ++ ("isPaused" ++ "\":") := rfl
  have hhasMetadata : ",\"hasMetadata\":" = ",\"" ++ ("hasMetadata" ++ "\":") := rfl
  have hisParticipatingInSwarm : ",\"isParticipatingInSwarm\":" =
      ",\"" ++ ("isParticipatingInSwarm" ++ "\":") := rfl
  unfold statusJson
  rw [hstate, hprogress, htotalBytes, hcompletedBytes, hdownloadRate, huploadRate,
    hconnectedPeers, hisPaused, hhasMetadata, hisParticipatingInSwarm]
  simp only [statusFields, fieldsText, textField, numberField, boolField, member,
    String.toList_append, List.append_assoc, List.cons_append, List.nil_append, brace_toList,
    comma_toList, colon_toList, close_toList]

theorem stateName_plain (status : TorrentStatus) (stopped : Bool) :
    Plain (stateName status stopped).toList := by
  unfold stateName
  split
  · decide
  · split
    · decide
    · cases status.state <;> decide

theorem reads_status (status : TorrentStatus) (stopped : Bool) :
    Reads (statusJson status stopped).toList
      (.object (membersOf (statusFields status stopped))) := by
  rw [statusJson_text]
  refine reads_fields (by simp [statusFields]) ?_
  unfold statusFields
  simp only [List.forall_mem_cons]
  refine ⟨textField_reads (by decide) (stateName_plain status stopped),
    ⟨by decide, reads_progress _⟩, numberField_reads (by decide) _,
    numberField_reads (by decide) _, numberField_reads (by decide) _,
    numberField_reads (by decide) _, numberField_reads (by decide) _,
    boolField_reads (by decide) _, boolField_reads (by decide) _, boolField_reads (by decide) _,
    fun f hf => by cases hf⟩

/-! ## The events -/

namespace EventForm

/-- The value of `kind`. -/
def kind : EventForm → String
  | .metadataReady => "metadataReady"
  | .statusChanged _ _ => "statusChanged"
  | .completed _ => "completed"
  | .stoppedAfterCompletion => "stoppedAfterCompletion"
  | .invalidSelection => "error"
  | .recoverableError => "error"
  | .completionFailed _ => "error"

/-- The fields behind the identifier. -/
def tail : EventForm → List (String × String × Value)
  | .metadataReady => []
  | .statusChanged status stopped =>
      [("status", statusJson status stopped, .object (membersOf (statusFields status stopped)))]
  | .completed status =>
      [("status", statusJson status, .object (membersOf (statusFields status false)))]
  | .stoppedAfterCompletion => []
  | .invalidSelection =>
      [numberField "code" 7, textField "description" "A requested file index is invalid."]
  | .recoverableError =>
      [numberField "code" 12,
        textField "description" "The torrent engine reported a recoverable error."]
  | .completionFailed failure =>
      [numberField "code" 16, textField "description" failure.description]

/-- The fields of an event: one text has a field in front of the kind. -/
def fields (id : String) (form : EventForm) : List (String × String × Value) :=
  (if form = .invalidSelection then [textField "type" "event"] else []) ++
    textField "kind" form.kind :: textField "id" id :: form.tail

theorem text_fields (id : String) (form : EventForm) :
    (form.text id).toList = '\x7b' :: fieldsText (form.fields id) := by
  cases form with
  | metadataReady =>
      unfold text metadataReadyJson
      simp [fields, kind, tail, fieldsText, member, textField, String.toList_append]
  | stoppedAfterCompletion =>
      unfold text stoppedAfterCompletionJson
      simp [fields, kind, tail, fieldsText, member, textField, String.toList_append]
  | statusChanged status stopped =>
      unfold text statusChangedJson
      simp [fields, kind, tail, fieldsText, member, textField, String.toList_append]
  | completed status =>
      unfold text completedJson
      simp [fields, kind, tail, fieldsText, member, textField, String.toList_append]
  | invalidSelection =>
      unfold text invalidSelectionJson
      simp [fields, kind, tail, fieldsText, member, textField, numberField, String.toList_append]
      rfl
  | recoverableError =>
      unfold text recoverableErrorJson errorJson errorTail
      simp [fields, kind, tail, fieldsText, member, textField, numberField, String.toList_append]
      rfl
  | completionFailed failure =>
      unfold text completionFailedJson errorJson errorTail
      simp [fields, kind, tail, fieldsText, member, textField, numberField, String.toList_append]
      rfl

theorem kind_plain (form : EventForm) : Plain form.kind.toList := by
  unfold kind
  split <;> decide

theorem description_plain : ∀ failure : CompletionFailure, Plain failure.description.toList
  | .checkpoint => plain_ofList (by decide)
  | .payloads => plain_ofList (by decide)
  | .metadata => plain_ofList (by decide)

theorem tail_reads (form : EventForm) : ∀ f ∈ form.tail, FieldReads f := by
  have hkey : Plain "status".toList := by decide
  cases form with
  | metadataReady | stoppedAfterCompletion => exact fun f hf => (by cases hf)
  | statusChanged status stopped =>
      simp only [tail, List.forall_mem_cons]
      exact ⟨⟨hkey, reads_status status stopped⟩, fun f hf => (by cases hf)⟩
  | completed status =>
      simp only [tail, List.forall_mem_cons]
      exact ⟨⟨hkey, reads_status status false⟩, fun f hf => (by cases hf)⟩
  | invalidSelection | recoverableError =>
      simp only [tail, List.forall_mem_cons]
      exact ⟨numberField_reads (by decide) _, textField_reads (by decide) (plain_ofList (by decide)),
        fun f hf => (by cases hf)⟩
  | completionFailed failure =>
      simp only [tail, List.forall_mem_cons]
      exact ⟨numberField_reads (by decide) _, textField_reads (by decide) (description_plain failure),
        fun f hf => (by cases hf)⟩

/-- With a plain identifier, the text is read as its fields. -/
theorem parse_text {id : String} (h : Plain id.toList) (form : EventForm) :
    parse (form.text id) = some (.object (membersOf (form.fields id))) := by
  apply parse_of_reads
  rw [text_fields]
  apply reads_fields
  · simp [fields]
  · unfold fields
    rw [List.forall_mem_append, List.forall_mem_cons, List.forall_mem_cons]
    refine ⟨?_, textField_reads (by decide) form.kind_plain, textField_reads (by decide) h,
      form.tail_reads⟩
    split
    · exact List.forall_mem_singleton.mpr (textField_reads (by decide) (by decide))
    · exact fun f hf => (by cases hf)

/-! ## Reading the identifier -/

theorem fieldsText_cons (f : String × String × Value) {fs : List (String × String × Value)}
    (hne : fs ≠ []) :
    fieldsText (f :: fs) = member f.1.toList (f.2.1.toList ++ ',' :: fieldsText fs) := by
  obtain ⟨g, gs, rfl⟩ := List.exists_cons_of_ne_nil hne
  rfl

/-- Behind a string field with a plain value, the other fields are read. -/
theorem members_textField {key s : String} {fs : List (String × String × Value)} {fuel : Nat}
    {ms : List (String × Value)} {rest : List Char} (hkey : Plain key.toList)
    (hs : Plain s.toList) (hne : fs ≠ [])
    (h : members fuel (fieldsText (textField key s :: fs)) = some (ms, rest)) :
    ∃ f ms', members f (fieldsText fs) = some (ms', rest) ∧ ms = (key, .string s) :: ms' := by
  rw [fieldsText_cons _ hne] at h
  change members fuel (member key.toList (("\"" ++ s ++ "\"").toList ++ _)) = _ at h
  rw [quoted_toList] at h
  have hread := members_quoted hkey hs h
  rwa [String.ofList_toList, String.ofList_toList] at hread

/-- The value of a string field is what the reader of strings makes of its text. -/
theorem members_textField_string {key s : String} {fs : List (String × String × Value)}
    {fuel : Nat} {ms : List (String × Value)} {rest : List Char} (hkey : Plain key.toList)
    (h : members fuel (fieldsText (textField key s :: fs)) = some (ms, rest)) :
    ∃ ys r t ms', stringBody .text (s.toList ++ '"' :: ys) = some (t, r) ∧
      ms = (key, .string (String.ofList t)) :: ms' := by
  have htext : ∃ ys, fieldsText (textField key s :: fs) =
      member key.toList ('"' :: (s.toList ++ '"' :: ys)) := by
    cases fs with
    | nil =>
        refine ⟨['\x7d'], ?_⟩
        show member key.toList (("\"" ++ s ++ "\"").toList ++ ['\x7d']) = _
        rw [quoted_toList]
        simp [quoted]
    | cons g gs =>
        refine ⟨',' :: fieldsText (g :: gs), ?_⟩
        show member key.toList (("\"" ++ s ++ "\"").toList ++ ',' :: fieldsText (g :: gs)) = _
        rw [quoted_toList]
        simp [quoted]
  obtain ⟨ys, htext⟩ := htext
  rw [htext] at h
  obtain ⟨t, r, ms', hbody, hms⟩ := members_string hkey h
  rw [String.ofList_toList] at hms
  exact ⟨ys, r, t, ms', hbody, hms⟩

/-- If the text is well formed and its identifier the one that was written, that is plain. -/
theorem plain_of_denotes {id : String} {form : EventForm} {ms : List (String × Value)}
    (h : Denotes (form.text id) (.object ms)) (hid : ms.lookup "id" = some (.string id)) :
    Plain id.toList := by
  obtain ⟨fuel, rest, hvalue, -⟩ := h
  rw [text_fields] at hvalue
  cases fuel with
  | zero => cases hvalue
  | succ fuel =>
      have hhead : (fieldsText (form.fields id)).head? = some '"' := by
        cases form <;> rfl
      rw [value_object hhead] at hvalue
      obtain ⟨⟨ms', r⟩, hmembers, heq⟩ := Option.map_eq_some_iff.mp hvalue
      obtain ⟨hobject, rfl⟩ := Prod.mk.inj heq
      obtain rfl : ms' = ms := Value.object.inj hobject
      -- the field in front of the kind, where there is one
      have hfront : ∃ f kept, members f
          (fieldsText (textField "kind" form.kind :: textField "id" id :: form.tail)) =
            some (kept, r) ∧ ms'.lookup "id" = kept.lookup "id" := by
        unfold fields at hmembers
        split at hmembers
        · obtain ⟨f, kept, hkept, rfl⟩ :=
            members_textField (by decide) (by decide) (by simp) hmembers
          exact ⟨f, kept, hkept, rfl⟩
        · exact ⟨fuel, ms', hmembers, rfl⟩
      obtain ⟨f, kept, hkept, hlookup⟩ := hfront
      obtain ⟨f', kept', hkept', rfl⟩ :=
        members_textField (by decide) form.kind_plain (by simp) hkept
      obtain ⟨ys, r', t, ms'', hbody, rfl⟩ := members_textField_string (by decide) hkept'
      have hvalue : some (Value.string (String.ofList t)) = some (Value.string id) :=
        hlookup.symm.trans hid
      obtain rfl : String.ofList t = id := Value.string.inj (Option.some.inj hvalue)
      rw [String.toList_ofList] at hbody ⊢
      exact plain_of_stringBody hbody

end EventForm

/-! ## Decoding the status -/

/-- The counters are in the range of their C++ types. -/
structure TorrentStatus.Fits (status : TorrentStatus) : Prop where
  totalWanted : -2 ^ 63 ≤ status.totalWanted ∧ status.totalWanted < 2 ^ 63
  totalWantedDone : -2 ^ 63 ≤ status.totalWantedDone ∧ status.totalWantedDone < 2 ^ 63
  downloadPayloadRate : -2 ^ 31 ≤ status.downloadPayloadRate ∧ status.downloadPayloadRate < 2 ^ 31
  uploadPayloadRate : -2 ^ 31 ≤ status.uploadPayloadRate ∧ status.uploadPayloadRate < 2 ^ 31
  numPeers : -2 ^ 31 ≤ status.numPeers ∧ status.numPeers < 2 ^ 31

/-- The state that the name stands for. -/
def shownState (status : TorrentStatus) (stopped : Bool) : Swift.TorrentState :=
  if stopped then .stopped
  else if status.paused then .paused
  else
    match status.state with
    | .checkingFiles => .checkingFiles
    | .downloadingMetadata => .downloadingMetadata
    | .downloading => .downloading
    | .finished => .finished
    | .seeding => .seeding
    | .checkingResumeData => .checkingResumeData
    | .other => .unknown

/-- The status as the application sees it. -/
def shownStatus (status : TorrentStatus) (stopped : Bool) : Swift.TorrentStatus :=
  let paused := stopped || status.paused
  { state := shownState status stopped
    progress := progressValue status.progressPpm
    totalBytes := status.totalWanted
    completedBytes := status.totalWantedDone
    downloadRate := if stopped then 0 else status.downloadPayloadRate
    uploadRate := if stopped then 0 else status.uploadPayloadRate
    connectedPeers := if stopped then 0 else status.numPeers
    isPaused := paused
    hasMetadata := status.hasMetadata
    isParticipatingInSwarm := !stopped && !paused }

theorem decodeInteger_of_range {width : Nat} {n : Int}
    (h : -2 ^ (width - 1) ≤ n ∧ n < 2 ^ (width - 1)) :
    Swift.decodeInteger width (.number n) = some n := by
  have hrange : (n : ℚ).den = 1 ∧ -2 ^ (width - 1) ≤ (n : ℚ).num ∧
      (n : ℚ).num < 2 ^ (width - 1) := ⟨Rat.den_intCast n, by rwa [Rat.num_intCast]⟩
  show (if _ then some (n : ℚ).num else none) = _
  rw [if_pos hrange, Rat.num_intCast]

theorem decodeState_name (status : TorrentStatus) (stopped : Bool) :
    Swift.decodeState (.string (stateName status stopped)) = some (shownState status stopped) := by
  unfold stateName shownState
  split
  · rfl
  · split
    · rfl
    · cases status.state <;> rfl

/-- A rate, or zero when the torrent is stopped, is within an `Int64`. -/
theorem rate_range {n : Int} (h : -2 ^ 31 ≤ n ∧ n < 2 ^ 31) (stopped : Bool) :
    -2 ^ 63 ≤ (if stopped then 0 else n) ∧ (if stopped then 0 else n) < 2 ^ 63 := by
  cases stopped with
  | true => simp
  | false =>
      simp only [Bool.false_eq_true, if_false]
      omega

theorem decode_status {status : TorrentStatus} (h : status.Fits) (stopped : Bool) :
    Swift.TorrentStatus.decode (.object (membersOf (statusFields status stopped))) =
      some (shownStatus status stopped) := by
  have hdownload := rate_range h.downloadPayloadRate stopped
  have hupload := rate_range h.uploadPayloadRate stopped
  have hpeers := rate_range h.numPeers stopped
  show ((Swift.decodeState (.string (stateName status stopped))).bind fun state =>
    (some (progressValue status.progressPpm)).bind fun progress =>
    (Swift.decodeInteger 64 (.number status.totalWanted)).bind fun totalBytes =>
    (Swift.decodeInteger 64 (.number status.totalWantedDone)).bind fun completedBytes =>
    (Swift.decodeInteger 64 (.number ((if stopped then 0 else status.downloadPayloadRate :
      Int)))).bind fun downloadRate =>
    (Swift.decodeInteger 64 (.number ((if stopped then 0 else status.uploadPayloadRate :
      Int)))).bind fun uploadRate =>
    (Swift.decodeInteger 64 (.number ((if stopped then 0 else status.numPeers :
      Int)))).bind fun connectedPeers =>
    some _) = _
  rw [decodeState_name, decodeInteger_of_range h.totalWanted,
    decodeInteger_of_range h.totalWantedDone, decodeInteger_of_range hdownload,
    decodeInteger_of_range hupload, decodeInteger_of_range hpeers]
  rfl

/-! ## Decoding the events -/

namespace EventForm

/-- The numbers of the form are in the range of their C++ types. -/
def Fits : EventForm → Prop
  | .statusChanged status _ => status.Fits
  | .completed status => status.Fits
  | _ => True

def errorEvent (platform : Swift.Foundation) (uuid : Swift.UUID) (code : Swift.ErrorCode)
    (description : String) : Swift.TorrentEvent :=
  .error (some uuid) (.make platform .event code "LibtorrentNative" description)

/-- The event that corresponds to the form. -/
def shown (platform : Swift.Foundation) (uuid : Swift.UUID) : EventForm → Swift.TorrentEvent
  | .metadataReady => .metadataReady uuid
  | .statusChanged status stopped => .statusChanged uuid (shownStatus status stopped)
  | .completed status => .completed uuid (shownStatus status false)
  | .stoppedAfterCompletion => .stoppedAfterCompletion uuid
  | .invalidSelection =>
      errorEvent platform uuid .invalidFileIndex "A requested file index is invalid."
  | .recoverableError =>
      errorEvent platform uuid .nativeFailure "The torrent engine reported a recoverable error."
  | .completionFailed failure => errorEvent platform uuid .completionFailed failure.description

/-- What the fields behind the identifier decode to. -/
def envelope (uuid : Swift.UUID) (form : EventForm) : Swift.NativeEventEnvelope :=
  { kind := form.kind
    id := some uuid
    pieceIndex := none
    status :=
      match form with
      | .statusChanged status stopped => some (shownStatus status stopped)
      | .completed status => some (shownStatus status false)
      | _ => none
    errorCode :=
      match form with
      | .invalidSelection => some 7
      | .recoverableError => some 12
      | .completionFailed _ => some 16
      | _ => none
    errorDescription :=
      match form with
      | .invalidSelection => some "A requested file index is invalid."
      | .recoverableError => some "The torrent engine reported a recoverable error."
      | .completionFailed failure => some failure.description
      | _ => none }

section

variable {id : String} {uuid : Swift.UUID} {form : EventForm}

theorem decode_fields (hfits : form.Fits) (huuid : Swift.UUID.ofUuidString id = some uuid) :
    Swift.NativeEventEnvelope.decode (.object (membersOf (form.fields id))) =
      some (form.envelope uuid) := by
  have hkind : Swift.decodeKey (membersOf (form.fields id)) Swift.decodeString "kind" =
      some (form.envelope uuid).kind := by
    cases form <;> rfl
  have hid : Swift.decodeIfPresent (membersOf (form.fields id)) Swift.decodeUUID "id" =
      some (form.envelope uuid).id := by
    have hlookup : Swift.decodeIfPresent (membersOf (form.fields id)) Swift.decodeUUID "id" =
        (Swift.UUID.ofUuidString id).map some := by
      cases form <;> rfl
    rw [hlookup, huuid]
    rfl
  have hpiece : Swift.decodeIfPresent (membersOf (form.fields id)) (Swift.decodeInteger 64)
      "pieceIndex" = some (form.envelope uuid).pieceIndex := by
    cases form <;> rfl
  have hstatus : Swift.decodeIfPresent (membersOf (form.fields id)) Swift.TorrentStatus.decode
      "status" = some (form.envelope uuid).status := by
    cases form with
    | statusChanged status stopped =>
        show (Swift.TorrentStatus.decode _).map some = _
        rw [decode_status hfits]
        rfl
    | completed status =>
        show (Swift.TorrentStatus.decode _).map some = _
        rw [decode_status hfits]
        rfl
    | _ => rfl
  have hcode : Swift.decodeIfPresent (membersOf (form.fields id)) (Swift.decodeInteger 32)
      "code" = some (form.envelope uuid).errorCode := by
    have hread : ∀ n : Int, -2 ^ 31 ≤ n ∧ n < 2 ^ 31 →
        (Swift.decodeInteger 32 (.number n)).map some = some (some n) := by
      intro n hn
      rw [decodeInteger_of_range hn]
      rfl
    cases form with
    | invalidSelection => exact hread 7 (by decide)
    | recoverableError => exact hread 12 (by decide)
    | completionFailed failure => exact hread 16 (by decide)
    | _ => rfl
  have hdescription : Swift.decodeIfPresent (membersOf (form.fields id)) Swift.decodeString
      "description" = some (form.envelope uuid).errorDescription := by
    cases form <;> rfl
  unfold Swift.NativeEventEnvelope.decode
  dsimp only
  rw [hkind, hid, hpiece, hstatus, hcode, hdescription]
  rfl

theorem event_envelope (platform : Swift.Foundation) (uuid : Swift.UUID) (form : EventForm) :
    (form.envelope uuid).event platform = some (form.shown platform uuid) := by
  cases form <;> rfl

/-- The text of a UUID's event is decoded to that event. -/
theorem decodeEvent_text (platform : Swift.Foundation) (hfits : form.Fits)
    (hplain : Plain id.toList) (huuid : Swift.UUID.ofUuidString id = some uuid) :
    Swift.decodeEvent platform (form.text id) = some (form.shown platform uuid) := by
  unfold Swift.decodeEvent
  rw [parse_text hplain, Option.bind_some, decode_fields hfits huuid, Option.bind_some,
    event_envelope]

end

end EventForm

/-! ## Identifiers -/

theorem hexValue_control {c : Char} (h : c.toNat < 0x20) : hexValue c = none := by
  have hdigit : c.isDigit = false := by
    rw [Bool.eq_false_iff]
    intro hd
    have : 48 ≤ c.toNat := (Char.isDigit_iff_toNat.mp hd).1
    omega
  have hlower : ¬ ('a' ≤ c ∧ c ≤ 'f') := by
    rintro ⟨ha, -⟩
    have : 97 ≤ c.toNat := ha
    omega
  have hupper : ¬ ('A' ≤ c ∧ c ≤ 'F') := by
    rintro ⟨ha, -⟩
    have : 65 ≤ c.toNat := ha
    omega
  unfold hexValue
  rw [hdigit, if_neg (by decide), if_neg hlower, if_neg hupper]

theorem hexDigits_plain {n value value' : Nat} {input rest : List Char}
    (h : Swift.hexDigits n value input = some (value', rest)) :
    ∃ ds, input = ds ++ rest ∧ Plain ds := by
  induction n generalizing value input with
  | zero =>
      obtain ⟨-, rfl⟩ := Prod.mk.inj (Option.some.inj h)
      exact ⟨[], rfl, fun c hc => (by cases hc)⟩
  | succ n ih =>
      cases input with
      | nil => cases h
      | cons c input =>
          unfold Swift.hexDigits at h
          split at h
          · next d hd =>
              obtain ⟨ds, rfl, hds⟩ := ih h
              refine ⟨c :: ds, rfl, List.forall_mem_cons.mpr ⟨?_, hds⟩⟩
              rw [isPlain_iff]
              refine ⟨?_, ?_, fun hcontrol => ?_⟩
              · rintro rfl
                cases hd
              · rintro rfl
                cases hd
              · rw [hexValue_control hcontrol] at hd
                cases hd
          · cases h

theorem hexGroups_plain {group : Nat} {groups : List Nat} {value value' : Nat}
    {input : List Char} (h : Swift.hexGroups group groups value input = some value') :
    Plain input := by
  induction groups generalizing group value input with
  | nil =>
      unfold Swift.hexGroups at h
      split at h
      · next hdigits =>
          obtain ⟨ds, rfl, hds⟩ := hexDigits_plain hdigits
          rwa [List.append_nil]
      · cases h
  | cons next groups ih =>
      unfold Swift.hexGroups at h
      split at h
      · next hdigits =>
          obtain ⟨ds, rfl, hds⟩ := hexDigits_plain hdigits
          refine List.forall_mem_append.mpr ⟨hds, List.forall_mem_cons.mpr ⟨by decide, ih h⟩⟩
      · cases h

/-- The identifiers that the Swift layer makes need no escapes. -/
theorem plain_of_uuid {id : String} {uuid : Swift.UUID}
    (h : Swift.UUID.ofUuidString id = some uuid) : Plain id.toList := by
  obtain ⟨value, hvalue, -⟩ := Option.map_eq_some_iff.mp h
  exact hexGroups_plain hvalue

/-! ## Which events can be decoded -/

/-- The text of the event is a well-formed object with one kind and one identifier, the one that
    was written; and if that is a UUID, the event can be decoded. -/
structure Decodable (platform : Swift.Foundation) (id : String) (form : EventForm) : Prop where
  text : ∃ ms, Denotes (form.text id) (.object ms) ∧ (ms.map Prod.fst).count "kind" = 1 ∧
    (ms.map Prod.fst).count "id" = 1 ∧ ms.lookup "id" = some (.string id)
  event : ∀ uuid, Swift.UUID.ofUuidString id = some uuid →
    Swift.decodeEvent platform (form.text id) = some (form.shown platform uuid)

theorem decodable_of_plain (platform : Swift.Foundation) {id : String} {form : EventForm}
    (hfits : form.Fits) (hplain : Plain id.toList) : Decodable platform id form where
  text := by
    refine ⟨_, .of_parse (form.parse_text hplain), ?_, ?_, ?_⟩
    · cases form <;> rfl
    · cases form <;> rfl
    · cases form <;> rfl
  event uuid huuid := form.decodeEvent_text platform hfits hplain huuid

theorem plain_of_decodable {platform : Swift.Foundation} {id : String} {form : EventForm}
    (h : Decodable platform id form) : Plain id.toList := by
  obtain ⟨ms, hdenotes, -, -, hid⟩ := h.text
  exact EventForm.plain_of_denotes hdenotes hid

/-- The events of the torrents that the Swift layer adds can be decoded. -/
theorem decodable_of_uuid (platform : Swift.Foundation) {id : String} {uuid : Swift.UUID}
    {form : EventForm} (hfits : form.Fits) (huuid : Swift.UUID.ofUuidString id = some uuid) :
    Decodable platform id form :=
  decodable_of_plain platform hfits (plain_of_uuid huuid)

/-- An event can be decoded if and only if its identifier needs no escapes. -/
theorem decodable_iff (platform : Swift.Foundation) (id : String) (form : EventForm)
    (hfits : form.Fits) : Decodable platform id form ↔ Plain id.toList :=
  ⟨plain_of_decodable, decodable_of_plain platform hfits⟩

theorem EventForm.fits_of_status {form : EventForm}
    (h : ∀ status, form.status = some status → status.Fits) : form.Fits := by
  cases form with
  | statusChanged status stopped => exact h status rfl
  | completed status => exact h status rfl
  | _ => trivial

/-- What `ltkit_session_next_event` has handed out or would hand out next, in any run in which the
    counters of libtorrent are in the range of their C++ types, is an event of a torrent that was
    added. It can be decoded if and only if the identifier of the torrent needs no escapes, and so
    it can when the identifier is a UUID. -/
theorem World.texts_decode (platform : Swift.Foundation) {ls : List Step} {w : World}
    (hrun : Lts.exec step {} ls = some w) (hreports : ∀ l ∈ ls, l.Reports TorrentStatus.Fits)
    {json : String}
    (hread : json ∈ w.session.textsRead ∨ ∃ order, w.session.events.front order = some json) :
    ∃ (id : String) (form : EventForm), Entry.mail (.begin id) ∈ w.session.trace ∧
      json = form.text id ∧ (Decodable platform id form ↔ Plain id.toList) ∧
      ∀ uuid, Swift.UUID.ofUuidString id = some uuid →
        Swift.decodeEvent platform json = some (form.shown platform uuid) := by
  obtain ⟨id, hadded, form, hstatus, rfl⟩ := texts_written hrun hreports hread
  have hfits := EventForm.fits_of_status hstatus
  exact ⟨id, form, hadded, rfl, ⟨plain_of_decodable, decodable_of_plain platform hfits⟩,
    fun uuid huuid => (decodable_of_uuid platform hfits huuid).event uuid huuid⟩

/-- A platform for the ASCII characters. -/
def asciiFoundation : Swift.Foundation where
  characters s := s.toList.map String.singleton
  localizedCaseInsensitiveContains s pattern :=
    s.toList.tails.any fun xs => (pattern.toLower.toList).isPrefixOf (xs.map Char.toLower)
  controlCharacters c := c.toNat < 0x20 || c.toNat = 0x7f

/-- A status in the middle of a download. -/
def quarterStatus : TorrentStatus :=
  { progressPpm := 250000, totalWanted := 4096, totalWantedDone := 1024 }

theorem quarterStatus_fits : quarterStatus.Fits :=
  ⟨by decide, by decide, by decide, by decide, by decide⟩

theorem statusChanged_decodable :
    Decodable asciiFoundation "123e4567-e89b-12d3-a456-426614174000"
      (.statusChanged quarterStatus false) :=
  (decodable_iff asciiFoundation _ (.statusChanged quarterStatus false)
    quarterStatus_fits).mpr (by decide)

/-- The identifier of a Swift caller. -/
def sampleUuid : String := "123e4567-e89b-12d3-a456-426614174000"

def uuidEnvironment : Environment :=
  { sampleEnvironment with jobsOrder := [sampleUuid], mailboxOrder := [sampleUuid] }

/-- A torrent is added, its state changes, and both events are read. -/
def statusRun : List Step :=
  [.call uuidEnvironment 0 (.add (sampleRequest sampleUuid)),
    .alert uuidEnvironment ⟨1, .stateChanged⟩, .call uuidEnvironment 0 (.nextEvent 0),
    .call uuidEnvironment 0 (.nextEvent 0)]

theorem statusRun_decodes : ∃ w, Lts.exec World.step {} statusRun = some w ∧
    w.session.textsRead.length = 2 ∧ ∀ json ∈ w.session.textsRead, ∃ event,
      Swift.decodeEvent asciiFoundation json = some event := by
  have hrun : (Lts.exec World.step {} statusRun).any (fun w =>
      decide (w.session.textsRead.length = 2) &&
        decide (w.session.trace.filterMap Entry.mail? =
          [.begin sampleUuid, .submit sampleUuid .metadata (metadataReadyJson sampleUuid),
            .take sampleUuid (metadataReadyJson sampleUuid)])) = true := by decide +kernel
  obtain ⟨w, hw, hend⟩ := (Option.any_eq_true _ _).mp hrun
  obtain ⟨hlength, hmail⟩ := (Bool.and_eq_true _ _).mp hend
  refine ⟨w, hw, of_decide_eq_true hlength, fun json hread => ?_⟩
  have hreports : ∀ l ∈ statusRun, l.Reports TorrentStatus.Fits := by
    simp only [statusRun, List.forall_mem_cons, Step.Reports, true_and, List.not_mem_nil,
      false_implies, implies_true, and_true]
    intro handle
    have hstatus : uuidEnvironment.status handle =
        { totalWanted := 10, isFinished := true, savePath := "/d" } := rfl
    rw [hstatus]
    exact ⟨by decide, by decide, by decide, by decide, by decide⟩
  obtain ⟨id, form, hbegin, -, -, huuid⟩ :=
    World.texts_decode asciiFoundation hw hreports (Or.inl hread)
  have hmem : .begin id ∈ w.session.trace.filterMap Entry.mail? :=
    List.mem_filterMap.mpr ⟨_, hbegin, rfl⟩
  rw [of_decide_eq_true hmail] at hmem
  obtain rfl : id = sampleUuid := by simpa using hmem
  obtain ⟨uuid, hid⟩ := Option.isSome_iff_exists.mp
    (show (Swift.UUID.ofUuidString sampleUuid).isSome = true by decide)
  exact ⟨_, huuid uuid hid⟩

/-- A torrent whose identifier has a quotation mark. -/
def quotedRun : List Step := [.call sampleEnvironment 0 (.add (sampleRequest "a\"b"))]

/-- The torrent is added, and the text of its first event cannot be decoded. -/
theorem quotedRun_undecodable :
    ∃ w, Lts.exec World.step {} quotedRun = some w ∧ (w.session.jobs.lookup "a\"b").isSome ∧
      w.session.events.front [] = some (EventForm.metadataReady.text "a\"b") ∧
      ¬ Decodable asciiFoundation "a\"b" .metadataReady := by
  have h : (Lts.exec World.step {} quotedRun).map (fun w =>
      ((w.session.jobs.lookup "a\"b").isSome, w.session.events.front [])) =
        some (true, some (EventForm.metadataReady.text "a\"b")) := by
    decide +kernel
  obtain ⟨w, hw, heq⟩ := Option.map_eq_some_iff.mp h
  obtain ⟨hadded, hfront⟩ := Prod.mk.inj heq
  refine ⟨w, hw, hadded, hfront, fun hdecodable => ?_⟩
  exact absurd (plain_of_decodable hdecodable) (by decide)

end LibtorrentKit
