/-
  The metadata of a torrent, as the Swift layer reads them.

  Names, creators and paths come from the torrent as they are, and `json_escape` makes strings
  of them. `jsonEscape_value`: whatever a text is and whatever follows it, its escaped form between
  quotation marks is one string, which is read as the text with its control characters replaced.
  The source escapes bytes; `bytes_jsonEscape` and `bytes_shown` say the same of the bytes.

  `metadata_json` joins such strings with numbers, over a loop with its own commas. Its text is
  that of its fields (`metadataFields`), and so it is read as what these denote.
-/
import LibtorrentKit.Lib.Utf8
import LibtorrentKit.Swift.Decoding

namespace LibtorrentKit

open Json Utf8

/-! ## Escaped strings -/

/-- What a character is read as: a control character without an escape of its own is lost. -/
def shownChar (c : Char) : Char :=
  if c.toNat < 0x20 ∧ c ∉ ['\x08', '\x0c', '\n', '\r', '\t'] then '?' else c

def shown (s : String) : String := String.ofList (s.toList.map shownChar)

theorem spells_escapeChar (c : Char) : Spells (escapeChar c).toList (shownChar c) := by
  unfold escapeChar
  split
  · next h => exact h ▸ @spells_escape '"' _ (by decide) rfl
  split
  · next h => exact h ▸ @spells_escape '\\' _ (by decide) rfl
  split
  · next h => exact h ▸ @spells_escape 'b' _ (by decide) rfl
  split
  · next h => exact h ▸ @spells_escape 'f' _ (by decide) rfl
  split
  · next h => exact h ▸ @spells_escape 'n' _ (by decide) rfl
  split
  · next h => exact h ▸ @spells_escape 'r' _ (by decide) rfl
  split
  · next h => exact h ▸ @spells_escape 't' _ (by decide) rfl
  next hquote hslash hbackspace hfeed hnewline hreturn htab =>
  have hnone : c ∉ ['\x08', '\x0c', '\n', '\r', '\t'] := by
    simp [hbackspace, hfeed, hnewline, hreturn, htab]
  unfold shownChar
  split
  · next hcontrol =>
      rw [if_pos ⟨hcontrol, hnone⟩]
      exact spells_plain (by decide)
  · next hcontrol =>
      rw [if_neg fun h => hcontrol h.1, String.toList_singleton]
      exact spells_plain (isPlain_iff.mpr ⟨hquote, hslash, hcontrol⟩)

theorem foldl_append_toList (parts : List String) (s : String) :
    (parts.foldl (· ++ ·) s).toList = s.toList ++ parts.flatMap String.toList := by
  induction parts generalizing s with
  | nil => simp
  | cons part parts ih =>
      rw [List.foldl_cons, ih, String.toList_append, List.append_assoc, List.flatMap_cons]

theorem jsonEscape_toList (s : String) :
    (jsonEscape s).toList = s.toList.flatMap fun c => (escapeChar c).toList := by
  unfold jsonEscape
  rw [foldl_append_toList, List.flatMap_map]
  rfl

theorem jsonEscape_read (s : String) (rest : List Char) :
    stringBody .text ((jsonEscape s).toList ++ '"' :: rest) =
      some (s.toList.map shownChar, rest) := by
  rw [jsonEscape_toList]
  exact stringBody_flatMap (fun c _ => spells_escapeChar c) rest

theorem jsonEscape_value (s : String) (fuel : Nat) (rest : List Char) :
    value (fuel + 1) (quoted (jsonEscape s).toList ++ rest) = some (.string (shown s), rest) :=
  value_quoted (jsonEscape_read s) fuel rest

/-! ## Escaped bytes -/

/-- One turn of the loop of `json_escape`, on the byte that it looks at. -/
def escapeByte (c : UInt8) : List UInt8 :=
  if c = 0x22 then [0x5c, 0x22]
  else if c = 0x5c then [0x5c, 0x5c]
  else if c = 0x08 then [0x5c, 0x62]
  else if c = 0x0c then [0x5c, 0x66]
  else if c = 0x0a then [0x5c, 0x6e]
  else if c = 0x0d then [0x5c, 0x72]
  else if c = 0x09 then [0x5c, 0x74]
  else if c < 0x20 then [0x3f]
  else [c]

def shownByte (c : UInt8) : UInt8 :=
  if c < 0x20 ∧ c ∉ [0x08, 0x0c, 0x0a, 0x0d, 0x09] then 0x3f else c

/-- A character that is not ASCII is written as it is. -/
theorem escapeChar_high {c : Char} (hc : 0x80 ≤ c.toNat) : (escapeChar c).toList = [c] := by
  have hne : ∀ d : Char, d.toNat < 0x80 → c ≠ d := by
    rintro d hd rfl
    omega
  unfold escapeChar
  rw [if_neg (hne _ (by decide)), if_neg (hne _ (by decide)), if_neg (hne _ (by decide)),
    if_neg (hne _ (by decide)), if_neg (hne _ (by decide)), if_neg (hne _ (by decide)),
    if_neg (hne _ (by decide)), if_neg (by omega), String.toList_singleton]

theorem escapeByte_high {b : UInt8} (hb : 0x80 ≤ b.toNat) : escapeByte b = [b] := by
  have hall : ∀ n < 256, 0x80 ≤ n → escapeByte (UInt8.ofNat n) = [UInt8.ofNat n] := by
    decide +kernel
  have hbyte := hall b.toNat b.toNat_lt hb
  rwa [UInt8.ofNat_toNat] at hbyte

/-- On the bytes of a text, `json_escape` writes the bytes of the escaped text. -/
theorem bytes_jsonEscape (s : String) :
    bytes (jsonEscape s) = (bytes s).flatMap escapeByte := by
  have hascii : ∀ n < 0x80, escapeByte (asciiByte (Char.ofNat n)) =
      encode (escapeChar (Char.ofNat n)).toList := by decide +kernel
  rw [bytes_eq, bytes_eq, jsonEscape_toList]
  refine (encode_flatMap (fun _ => escapeByte_high) (fun _ => escapeChar_high) ?_ _).symm
  intro c hc
  have hbyte := hascii c.toNat hc
  rwa [Char.ofNat_toNat] at hbyte

theorem shownByte_high {b : UInt8} (hb : 0x80 ≤ b.toNat) : shownByte b = b := by
  have hlarge : ¬ b < 0x20 := by
    rw [UInt8.lt_iff_toNat_lt]
    exact Nat.not_lt.mpr (Nat.le_trans (by decide) hb)
  exact if_neg fun h => hlarge h.1

/-- What the escaped text is read as, byte by byte. -/
theorem bytes_shown (s : String) : bytes (shown s) = (bytes s).map shownByte := by
  have hascii : ∀ n < 0x80, shownByte (asciiByte (Char.ofNat n)) =
      asciiByte (shownChar (Char.ofNat n)) := by decide +kernel
  have hlow : ∀ n < 0x80, (shownChar (Char.ofNat n)).toNat < 0x80 := by decide +kernel
  unfold shown
  rw [bytes_ofList, bytes_eq, List.map_eq_flatMap, List.map_eq_flatMap]
  refine (encode_flatMap (fun _ hb => congrArg (· :: []) (shownByte_high hb)) ?_ ?_ _).symm
  · intro c hc
    have hlarge : ¬ (c.toNat < 0x20 ∧ c ∉ ['\x08', '\x0c', '\n', '\r', '\t']) := fun h => by omega
    exact congrArg (· :: []) (if_neg hlarge)
  · intro c hc
    have hbyte := hascii c.toNat hc
    have hsmall := hlow c.toNat hc
    rw [Char.ofNat_toNat] at hbyte hsmall
    rw [hbyte]
    exact ((List.flatMap_singleton _ _).trans (encodeChar_ascii hsmall)).symm

/-! ## The fields -/

/-- A member that is a string, written with its escapes. -/
def escapedField (key s : String) : String × String × Value :=
  (key, "\"" ++ jsonEscape s ++ "\"", .string (shown s))

/-- A member that is null when `p` does not hold. -/
def orNull (p : Prop) [Decidable p] (f : String × String × Value) : String × String × Value :=
  (f.1, if p then f.2.1 else "null", if p then f.2.2 else .null)

def hashValue : Option String → Value
  | some hash => .string hash
  | none => .null

/-- A member that is a hash. -/
def hashField (key : String) (hash : Option String) : String × String × Value :=
  (key, hashText hash, hashValue hash)

theorem escapedField_reads {key : String} (hkey : Plain key.toList) (s : String) :
    FieldReads (escapedField key s) := by
  refine ⟨hkey, ?_⟩
  show Reads ("\"" ++ jsonEscape s ++ "\"").toList (.string (shown s))
  rw [quoted_toList]
  exact reads_string (jsonEscape_read s)

theorem orNull_reads (p : Prop) [Decidable p] {f : String × String × Value} (h : FieldReads f) :
    FieldReads (orNull p f) := by
  refine ⟨h.1, ?_⟩
  unfold orNull
  split
  · exact h.2
  · exact reads_null

/-- A hash in the digits that `lt::aux::to_hex` writes. -/
def HexDigits (hash : String) : Prop := ∀ c ∈ hash.toList, c ∈ "0123456789abcdef".toList

/-- The hashes of a torrent are written in these digits. -/
structure HexHashes (hashes : InfoHashes) : Prop where
  v1 : ∀ hash ∈ hashes.v1, HexDigits hash
  v2 : ∀ hash ∈ hashes.v2, HexDigits hash

theorem HexDigits.plain {hash : String} (h : HexDigits hash) : Plain hash.toList := by
  have hall : "0123456789abcdef".toList.all isPlain = true := by decide +kernel
  exact fun c hc => List.all_eq_true.mp hall c (h c hc)

theorem hashField_reads {key : String} (hkey : Plain key.toList) {hash : Option String}
    (h : ∀ x ∈ hash, HexDigits x) : FieldReads (hashField key hash) := by
  cases hash with
  | none => exact ⟨hkey, reads_null⟩
  | some hash => exact textField_reads hkey (h hash rfl).plain

/-- The fields of one file in `metadata_json`. -/
def fileFields (info : TorrentInfo) (priorities : List Priority) (progress : List Int)
    (index : Nat) (file : FileEntry) (path : String) : List (String × String × Value) :=
  [numberField "index" index,
    escapedField "path" path,
    numberField "size" file.size,
    numberField "torrentOffset" file.offset,
    orNull (0 < file.size) (numberField "firstPieceIndex" (info.pieceIndexAtFile file)),
    orNull (0 < file.size) (numberField "lastPieceIndex" (info.lastPieceIndexAtFile file)),
    boolField "isSelected" ((priorities[index]?).any (· ≠ dontDownload)),
    numberField "completedBytes" ((progress[index]?).getD 0)]

/-- The fields of `metadata_json`, when the loop has written `files`, which denotes `entries`. -/
def metadataFields (info : TorrentInfo) (files : String) (entries : List Value) :
    List (String × String × Value) :=
  [escapedField "name" info.name,
    hashField "infoHashV1" info.infoHashes.v1,
    hashField "infoHashV2" info.infoHashes.v2,
    numberField "pieceLength" info.pieceLength,
    numberField "pieceCount" info.numPieces,
    numberField "totalBytes" info.totalSize,
    orNull (0 < info.creationDate) (numberField "creationDate" info.creationDate),
    orNull (info.creator ≠ "") (escapedField "creator" info.creator),
    ("files", "[" ++ files ++ "]", .array entries)]

theorem fileJson_text (info : TorrentInfo) (priorities : List Priority) (progress : List Int)
    (index : Nat) (file : FileEntry) (path : String) :
    (fileJson info priorities progress index file path).toList =
      (if index = 0 then [] else [',']) ++
        '\x7b' :: fieldsText (fileFields info priorities progress index file path) := by
  -- the pieces that the source writes, cut at the keys
  have hindex : "\x7b\"index\":" = "\x7b\"" ++ ("index" ++ "\":") := rfl
  have hpath : ",\"path\":\"" = ",\"" ++ ("path" ++ ("\":" ++ "\"")) := rfl
  have hsize : ",\"size\":" = ",\"" ++ ("size" ++ "\":") := rfl
  have htorrentOffset : ",\"torrentOffset\":" = ",\"" ++ ("torrentOffset" ++ "\":") := rfl
  have hfirst : ",\"firstPieceIndex\":" = ",\"" ++ ("firstPieceIndex" ++ "\":") := rfl
  have hlast : ",\"lastPieceIndex\":" = ",\"" ++ ("lastPieceIndex" ++ "\":") := rfl
  have hnull : ",\"firstPieceIndex\":null,\"lastPieceIndex\":null" =
      ",\"" ++ ("firstPieceIndex" ++ ("\":" ++ ("null" ++
        (",\"" ++ ("lastPieceIndex" ++ ("\":" ++ "null")))))) := rfl
  have hisSelected : ",\"isSelected\":" = ",\"" ++ ("isSelected" ++ "\":") := rfl
  have hcompletedBytes : ",\"completedBytes\":" = ",\"" ++ ("completedBytes" ++ "\":") := rfl
  have hseparator : (if index = 0 then "" else ",").toList = if index = 0 then [] else [','] := by
    split <;> rfl
  unfold fileJson fileFields
  rw [hindex, hpath, hsize, htorrentOffset, hfirst, hlast, hnull, hisSelected, hcompletedBytes]
  by_cases hpos : 0 < file.size
  · simp only [if_pos hpos, fieldsText, escapedField, numberField, boolField, orNull, member,
      String.toList_append, List.append_assoc, List.cons_append, List.nil_append, brace_toList,
      comma_toList, colon_toList, close_toList, hseparator]
    rfl
  · simp only [if_neg hpos, fieldsText, escapedField, numberField, boolField, orNull, member,
      String.toList_append, List.append_assoc, List.cons_append, List.nil_append, brace_toList,
      comma_toList, colon_toList, close_toList, hseparator]
    rfl

/-! ## The files -/

/-- What the entry of a file denotes. -/
def fileValue (info : TorrentInfo) (priorities : List Priority) (progress : List Int)
    (index : Nat) (file : FileEntry) (path : String) : Value :=
  .object [("index", .number index),
    ("path", .string (shown path)),
    ("size", .number file.size),
    ("torrentOffset", .number file.offset),
    ("firstPieceIndex", if 0 < file.size then .number (info.pieceIndexAtFile file) else .null),
    ("lastPieceIndex", if 0 < file.size then .number (info.lastPieceIndexAtFile file) else .null),
    ("isSelected", .bool ((priorities[index]?).any (· ≠ dontDownload))),
    ("completedBytes", .number ((progress[index]?).getD 0 : Int))]

theorem fileFields_value (info : TorrentInfo) (priorities : List Priority) (progress : List Int)
    (index : Nat) (file : FileEntry) (path : String) :
    Value.object (membersOf (fileFields info priorities progress index file path)) =
      fileValue info priorities progress index file path := rfl

theorem fileFields_reads (info : TorrentInfo) (priorities : List Priority) (progress : List Int)
    (index : Nat) (file : FileEntry) (path : String) :
    ∀ f ∈ fileFields info priorities progress index file path, FieldReads f := by
  unfold fileFields
  simp only [List.forall_mem_cons]
  exact ⟨numberField_reads (by decide) _, escapedField_reads (by decide) _,
    numberField_reads (by decide) _, numberField_reads (by decide) _,
    orNull_reads _ (numberField_reads (by decide) _),
    orNull_reads _ (numberField_reads (by decide) _), boolField_reads (by decide) _,
    numberField_reads (by decide) _, fun f hf => by cases hf⟩

/-- The entry of a file, with the path that `safe_relative_path` makes of its own, and what it
    denotes. -/
def fileItem (info : TorrentInfo) (priorities : List Priority) (progress : List Int)
    (x : FileEntry × Nat) : String × Value :=
  let path := (safeRelativePath x.1).getD ""
  (String.ofList ('\x7b' :: fieldsText (fileFields info priorities progress x.2 x.1 path)),
    fileValue info priorities progress x.2 x.1 path)

theorem fileItem_reads (info : TorrentInfo) (priorities : List Priority) (progress : List Int)
    (x : FileEntry × Nat) :
    Opens (fileItem info priorities progress x).1.toList ∧
      Reads (fileItem info priorities progress x).1.toList
        (fileItem info priorities progress x).2 := by
  unfold fileItem
  dsimp only
  rw [String.toList_ofList, ← fileFields_value]
  exact ⟨⟨'\x7b', _, rfl, by decide, by decide⟩,
    reads_fields (by simp [fileFields]) (fileFields_reads _ _ _ _ _ _)⟩

/-- The loop over the files writes one item for each, with commas between them. -/
theorem filesJson_text (info : TorrentInfo) (priorities : List Priority) (progress : List Int)
    (index : Nat) {files : List FileEntry}
    (hsafe : ∀ file ∈ files, (safeRelativePath file).isSome = true) :
    ∃ text, filesJson info priorities progress index files = some text ∧
      text.toList ++ [']'] = (if index = 0 ∨ files = [] then [] else [',']) ++
        itemsText ((files.zipIdx index).map (fileItem info priorities progress)) := by
  induction files generalizing index with
  | nil => exact ⟨"", rfl, by simp [itemsText]⟩
  | cons file files ih =>
      obtain ⟨hfile, hfiles⟩ := List.forall_mem_cons.mp hsafe
      obtain ⟨path, hpath⟩ := Option.isSome_iff_exists.mp hfile
      obtain ⟨text, htext, hitems⟩ := ih (index + 1) hfiles
      refine ⟨fileJson info priorities progress index file path ++ text, ?_, ?_⟩
      · simp only [filesJson, hpath, htext, Option.map_some]
      · rw [String.toList_append, fileJson_text, List.append_assoc, hitems, List.zipIdx_cons,
          List.map_cons, itemsText_cons]
        simp [fileItem, hpath]

/-! ## The metadata -/

/-- What the text of the metadata denotes, when `entries` are its files. -/
def metadataValue (info : TorrentInfo) (entries : List Value) : Value :=
  .object [("name", .string (shown info.name)),
    ("infoHashV1", hashValue info.infoHashes.v1),
    ("infoHashV2", hashValue info.infoHashes.v2),
    ("pieceLength", .number info.pieceLength),
    ("pieceCount", .number info.numPieces),
    ("totalBytes", .number info.totalSize),
    ("creationDate", if 0 < info.creationDate then .number info.creationDate else .null),
    ("creator", if info.creator ≠ "" then .string (shown info.creator) else .null),
    ("files", .array entries)]

theorem metadataFields_value (info : TorrentInfo) (files : String) (entries : List Value) :
    Value.object (membersOf (metadataFields info files entries)) =
      metadataValue info entries := rfl

theorem metadataFields_reads {info : TorrentInfo} (hhashes : HexHashes info.infoHashes)
    {files : String} {entries : List Value}
    (hfiles : Reads ("[" ++ files ++ "]").toList (.array entries)) :
    ∀ f ∈ metadataFields info files entries, FieldReads f := by
  have hkey : Plain "files".toList := by decide
  unfold metadataFields
  simp only [List.forall_mem_cons]
  exact ⟨escapedField_reads (by decide) _, hashField_reads (by decide) hhashes.v1,
    hashField_reads (by decide) hhashes.v2, numberField_reads (by decide) _,
    numberField_reads (by decide) _, numberField_reads (by decide) _,
    orNull_reads _ (numberField_reads (by decide) _),
    orNull_reads _ (escapedField_reads (by decide) _), ⟨hkey, hfiles⟩,
    fun f hf => by cases hf⟩

theorem metadataJson_text {env : Environment} {handle : Handle} {info : TorrentInfo}
    (hinfo : env.torrentFile handle = some info) {files : String} (entries : List Value)
    (hfiles : filesJson info (env.getFilePriorities handle) (env.fileProgress handle) 0
      info.layout = some files) :
    ∃ text, metadataJson env handle = some text ∧
      text.toList = '\x7b' :: fieldsText (metadataFields info files entries) := by
  unfold metadataJson
  simp only [hinfo, hfiles, Option.map_some]
  refine ⟨_, rfl, ?_⟩
  -- the pieces that the source writes, cut at the keys
  have hname : "\x7b\"name\":\"" = "\x7b\"" ++ ("name" ++ ("\":" ++ "\"")) := rfl
  have hv1 : ",\"infoHashV1\":" = ",\"" ++ ("infoHashV1" ++ "\":") := rfl
  have hv2 : ",\"infoHashV2\":" = ",\"" ++ ("infoHashV2" ++ "\":") := rfl
  have hpieceLength : ",\"pieceLength\":" = ",\"" ++ ("pieceLength" ++ "\":") := rfl
  have hpieceCount : ",\"pieceCount\":" = ",\"" ++ ("pieceCount" ++ "\":") := rfl
  have htotalBytes : ",\"totalBytes\":" = ",\"" ++ ("totalBytes" ++ "\":") := rfl
  have hcreationDate : ",\"creationDate\":" = ",\"" ++ ("creationDate" ++ "\":") := rfl
  have hcreator : ",\"creator\":" = ",\"" ++ ("creator" ++ "\":") := rfl
  have hfiles : ",\"files\":[" = ",\"" ++ ("files" ++ ("\":" ++ "[")) := rfl
  have hend : "]\x7d" = "]" ++ "\x7d" := rfl
  rw [hname, hv1, hv2, hpieceLength, hpieceCount, htotalBytes, hcreationDate, hcreator, hfiles,
    hend]
  simp only [metadataFields, fieldsText, escapedField, hashField, numberField, orNull, ite_not,
    ne_eq, member, String.toList_append, List.append_assoc, List.cons_append, List.nil_append,
    brace_toList, comma_toList, colon_toList, close_toList]
  rfl

theorem reads_metadata {env : Environment} {handle : Handle} {info : TorrentInfo}
    (hinfo : env.torrentFile handle = some info) (hhashes : HexHashes info.infoHashes)
    (hsafe : ∀ file ∈ info.layout, (safeRelativePath file).isSome = true) :
    ∃ text, metadataJson env handle = some text ∧
      Reads text.toList (metadataValue info ((info.layout.zipIdx.map
        (fileItem info (env.getFilePriorities handle) (env.fileProgress handle))).map
          Prod.snd)) := by
  obtain ⟨files, hfiles, hitems⟩ := filesJson_text info (env.getFilePriorities handle)
    (env.fileProgress handle) 0 hsafe
  obtain ⟨text, htext, hfields⟩ := metadataJson_text hinfo _ hfiles
  refine ⟨text, htext, ?_⟩
  rw [if_pos (Or.inl rfl), List.nil_append] at hitems
  have harray : ("[" ++ files ++ "]").toList = '[' :: (files.toList ++ [']']) := by
    simp [String.toList_append]
  rw [hfields, ← metadataFields_value info files]
  refine reads_fields (by simp [metadataFields]) (metadataFields_reads hhashes ?_)
  rw [harray, hitems]
  refine reads_items fun x hx => ?_
  obtain ⟨y, -, rfl⟩ := List.mem_map.mp hx
  exact fileItem_reads _ _ _ y

/-- An escaped string between quotation marks is one string, whatever follows it, and is read as
    the text with its control characters replaced. So the text of the metadata is well formed,
    and denotes one entry for each file, in the order of the files. -/
theorem metadataJson_parses :
    (∀ (s : String) (fuel : Nat) (rest : List Char),
      bytes (jsonEscape s) = (bytes s).flatMap escapeByte ∧
        value (fuel + 1) (quoted (jsonEscape s).toList ++ rest) =
          some (.string (shown s), rest) ∧
        bytes (shown s) = (bytes s).map shownByte) ∧
      ∀ (env : Environment) (handle : Handle) (info : TorrentInfo),
        env.torrentFile handle = some info → HexHashes info.infoHashes →
        (∀ file ∈ info.layout, (safeRelativePath file).isSome = true) →
        ∃ text entries, metadataJson env handle = some text ∧
          parse text = some (metadataValue info entries) ∧
          entries.length = info.layout.length ∧
          ∀ (index : Nat) (file : FileEntry), info.layout[index]? = some file →
            ∃ path, safeRelativePath file = some path ∧
              entries[index]? = some (fileValue info (env.getFilePriorities handle)
                (env.fileProgress handle) index file path) := by
  refine ⟨fun s fuel rest => ⟨bytes_jsonEscape s, jsonEscape_value s fuel rest, bytes_shown s⟩,
    fun env handle info hinfo hhashes hsafe => ?_⟩
  obtain ⟨text, htext, hreads⟩ := reads_metadata hinfo hhashes hsafe
  refine ⟨text, _, htext, parse_of_reads hreads, by simp, fun index file hfile => ?_⟩
  obtain ⟨path, hpath⟩ := Option.isSome_iff_exists.mp (hsafe file (List.mem_of_getElem? hfile))
  refine ⟨path, hpath, ?_⟩
  simp [fileItem, hfile, hpath]

/-- Two files, the first of them empty, with names that need escapes. -/
def quotedInfo : TorrentInfo where
  name := "\"é\\"
  infoHashes := { v2 := some "0f" }
  pieceLength := 16
  numPieces := 1
  totalSize := 10
  creator := "\x01\n"
  layout := [{ path := "é/./\",", size := 0, offset := 0 },
    { path := "b", size := 10, offset := 0 }]

def quotedEnvironment : Environment :=
  { sampleEnvironment with torrentFile := fun _ => some quotedInfo }

theorem quotedInfo_parses :
    ∃ text entries, metadataJson quotedEnvironment 1 = some text ∧
      parse text = some (metadataValue quotedInfo entries) ∧ entries.length = 2 := by
  have hhashes : HexHashes quotedInfo.infoHashes := by
    constructor
    · intro hash h
      cases h
    · intro hash h
      cases h
      simp [HexDigits]
  obtain ⟨text, entries, htext, hparse, hlength, -⟩ := metadataJson_parses.2 quotedEnvironment 1
    quotedInfo rfl hhashes (by decide +kernel)
  exact ⟨text, entries, htext, hparse, hlength⟩

example : shown "\x01\n\"" = "?\n\"" := by decide +kernel

end LibtorrentKit
