/-
  The replies of the native session, as the methods of `TorrentSession` return them.

  `ltkit_session_metadata`, `ltkit_session_update_streaming_window` and `ltkit_session_pieces`
  answer with a text, which `decodeJSON` turns into a value. As long as the numbers of the engine
  fit into the integers of Swift, nothing is lost on the way: the metadata are those of the torrent
  with unprintable characters replaced (`metadata_roundTrips`), and the geometry that is made of
  them is that of the engine. So a window that the plan of the actor accepts is the one that comes
  back, and its deadlines are the ones that are listed with the pieces (`window_roundTrips`).
-/
import LibtorrentKit.Swift.MetadataText
import LibtorrentKit.Swift.PieceCompletion
import LibtorrentKit.Swift.TorrentSession

namespace LibtorrentKit

open Json

/-! ## Arrays -/

/-- A member that is an array, with the texts and the values of its elements. -/
def arrayField {α : Type} (key : String) (text : α → String) (denotes : α → Value) (xs : List α) :
    String × String × Value :=
  (key, "[" ++ commaJoin (xs.map text) ++ "]", .array (xs.map denotes))

theorem commaJoin_items (items : List (String × Value)) :
    (commaJoin (items.map Prod.fst)).toList ++ [']'] = itemsText items := by
  induction items with
  | nil => rfl
  | cons x xs ih =>
      cases xs with
      | nil => simp [commaJoin, itemsText]
      | cons y ys =>
          rw [itemsText_cons, if_neg (by simp), ← ih]
          simp [commaJoin, String.intercalate_cons_cons]

theorem arrayField_reads {α : Type} {key : String} (hkey : Plain key.toList) {text : α → String}
    {denotes : α → Value} {xs : List α}
    (h : ∀ x ∈ xs, Opens (text x).toList ∧ Reads (text x).toList (denotes x)) :
    FieldReads (arrayField key text denotes xs) := by
  have hitems := commaJoin_items (xs.map fun x => (text x, denotes x))
  rw [List.map_map] at hitems
  have htext : ("[" ++ commaJoin (xs.map text) ++ "]").toList =
      '[' :: itemsText (xs.map fun x => (text x, denotes x)) := by
    rw [← hitems]
    simp [String.toList_append, Function.comp_def]
  refine ⟨hkey, ?_⟩
  show Reads ("[" ++ commaJoin (xs.map text) ++ "]").toList (.array (xs.map denotes))
  rw [htext]
  have hreads := @reads_items (xs.map fun x => (text x, denotes x)) fun x hx => by
    obtain ⟨y, hy, rfl⟩ := List.mem_map.mp hx
    exact h y hy
  rwa [List.map_map] at hreads

/-- A member that is an array of integers. -/
def integersField (key : String) (ns : List Int) : String × String × Value :=
  arrayField key toString (fun n : Int => .number n) ns

theorem integersField_reads {key : String} (hkey : Plain key.toList) (ns : List Int) :
    FieldReads (integersField key ns) := by
  refine arrayField_reads hkey fun n _ => ⟨?_, reads_int n⟩
  obtain ⟨c, tail, heq, hc⟩ := numberHead_int n
  refine ⟨c, tail, heq, ?_⟩
  rcases hc with hdigit | rfl
  · refine ⟨?_, fun hbracket => ?_⟩
    · by_contra hspace
      simp only [isSpace, Bool.or_eq_true, decide_eq_true_eq, Bool.not_eq_false] at hspace
      rcases hspace with ((rfl | rfl) | rfl) | rfl <;> cases hdigit
    · subst hbracket
      cases hdigit
  · decide

/-- A member that is an array of truth values. -/
def boolsField (key : String) (bs : List Bool) : String × String × Value :=
  arrayField key boolText .bool bs

theorem boolsField_reads {key : String} (hkey : Plain key.toList) (bs : List Bool) :
    FieldReads (boolsField key bs) := by
  refine arrayField_reads hkey fun b _ => ⟨?_, reads_bool b⟩
  cases b with
  | true => exact ⟨'t', ['r', 'u', 'e'], rfl, by decide⟩
  | false => exact ⟨'f', ['a', 'l', 's', 'e'], rfl, by decide⟩

namespace Swift

theorem decodeArray_map {α β : Type} {read : Value → Option β} {denotes : α → Value}
    {result : α → β} {xs : List α} (h : ∀ x ∈ xs, read (denotes x) = some (result x)) :
    decodeArray read (.array (xs.map denotes)) = some (xs.map result) := by
  unfold decodeArray
  dsimp only
  induction xs with
  | nil => rfl
  | cons x xs ih =>
      obtain ⟨hx, hxs⟩ := List.forall_mem_cons.mp h
      rw [List.map_cons, List.mapM_cons, hx, ih hxs]
      rfl

theorem decodeInteger_fits {n : Int} (h : Checked.Fits64 n) :
    decodeInteger 64 (.number n) = some n :=
  decodeInteger_of_range (by unfold Checked.Fits64 at h; omega)

theorem decodeArray_integers {ns : List Int} (h : ∀ n ∈ ns, Checked.Fits64 n) :
    decodeArray (decodeInteger 64) (.array (ns.map fun n : Int => .number n)) = some ns := by
  have hdecode := @decodeArray_map Int Int (decodeInteger 64) (fun n : Int => .number n) id ns
    fun n hn => decodeInteger_fits (h n hn)
  rwa [List.map_id] at hdecode

theorem decodeArray_bools (bs : List Bool) :
    decodeArray decodeBool (.array (bs.map .bool)) = some bs := by
  have hdecode := @decodeArray_map Bool Bool decodeBool .bool id bs fun _ _ => rfl
  rwa [List.map_id] at hdecode

/-- `decodeJSON`, once the native call has succeeded: an empty buffer is an error. -/
def decodeJSON {α : Type} (read : Value → Option α) (json : String) : Option α :=
  if json = "" then none else (parse json).bind read

theorem decodeJSON_of_reads {α : Type} {read : Value → Option α} {json : String} {v : Value}
    (h : Reads json.toList v) : decodeJSON read json = read v := by
  unfold decodeJSON
  rw [if_neg, parse_of_reads h, Option.bind_some]
  rintro rfl
  have hempty := h 1 [] (by simp) ends_nil
  cases hempty

theorem decodeKey_eq {α : Type} {members : List (String × Value)} {read : Value → Option α}
    {key : String} {v : Value} {a : α} (hkey : members.lookup key = some v) (h : read v = some a) :
    decodeKey members read key = some a := by
  rw [decodeKey, hkey, Option.bind_some, h]

/-- A member that is null when `p` does not hold. -/
theorem decodeIfPresent_ite {α : Type} {members : List (String × Value)} {read : Value → Option α}
    {key : String} {p : Prop} [Decidable p] {v : Value} {a : α}
    (hkey : members.lookup key = some (if p then v else .null)) (hv : v ≠ .null)
    (h : p → read v = some a) :
    decodeIfPresent members read key = some (if p then some a else none) := by
  unfold decodeIfPresent
  rw [hkey]
  by_cases hp : p
  · rw [if_pos hp, if_pos hp]
    cases v with
    | null => exact absurd rfl hv
    | _ => exact congrArg (Option.map some) (h hp)
  · rw [if_neg hp, if_neg hp]

/-! ## Metadata -/

/-- The file as `TorrentFileInfo` shows it. -/
def shownFile (env : Environment) (handle : Handle) (info : TorrentInfo) (x : FileEntry × Nat) :
    TorrentFileInfo where
  index := x.2
  path := shown ((safeRelativePath x.1).getD "")
  size := x.1.size
  torrentOffset := x.1.offset
  firstPieceIndex := if 0 < x.1.size then some (info.pieceIndexAtFile x.1) else none
  lastPieceIndex := if 0 < x.1.size then some (info.lastPieceIndexAtFile x.1) else none
  isSelected := ((env.getFilePriorities handle)[x.2]?).any (· ≠ dontDownload)
  completedBytes := ((env.fileProgress handle)[x.2]?).getD 0

/-- The metadata as `TorrentMetadata` shows them. -/
def shownMetadata (env : Environment) (handle : Handle) (info : TorrentInfo) : TorrentMetadata where
  name := shown info.name
  infoHashV1 := info.infoHashes.v1
  infoHashV2 := info.infoHashes.v2
  pieceLength := info.pieceLength
  pieceCount := info.numPieces
  totalBytes := info.totalSize
  creationDate := if 0 < info.creationDate then some info.creationDate else none
  creator := if info.creator ≠ "" then some (shown info.creator) else none
  files := info.layout.zipIdx.map (shownFile env handle info)

/-- A torrent whose files lie in its pieces, and whose counts fit in 32 bits. -/
structure InfoFits (info : TorrentInfo) : Prop where
  length : 0 < info.pieceLength ∧ info.pieceLength ≤ 2147483647
  pieces : info.numPieces ≤ 2147483647
  total : 0 ≤ info.totalSize ∧ info.totalSize ≤ 9223372036854775807
  count : info.layout.length ≤ 2147483647
  files : ∀ file ∈ info.layout, 0 ≤ file.offset ∧ 0 ≤ file.size ∧
    file.offset + file.size ≤ info.numPieces * info.pieceLength

theorem InfoFits.bytes {info : TorrentInfo} (h : InfoFits info) :
    info.numPieces * info.pieceLength ≤ 9223372036854775807 := by
  have hmul : (info.numPieces : Int) * info.pieceLength ≤ 2147483647 * 2147483647 :=
    Int.mul_le_mul (by exact_mod_cast h.pieces) h.length.2 (Int.le_of_lt h.length.1) (by decide)
  omega

/-- A file that is not empty can be streamed. -/
theorem InfoFits.streamable {info : TorrentInfo} (h : InfoFits info) {file : FileEntry}
    (hfile : file ∈ info.layout) (hsize : 0 < file.size) : Streamable info file := by
  obtain ⟨ho, _, hf⟩ := h.files file hfile
  have hpieces := h.pieces
  have hlast : info.lastPieceIndexAtFile file < info.numPieces :=
    Int.ediv_lt_of_lt_mul h.length.1 (by omega)
  exact ⟨ho, hsize, hf.trans h.bytes, h.length.1, by omega⟩

theorem InfoFits.first {info : TorrentInfo} (h : InfoFits info) {file : FileEntry}
    (hfile : file ∈ info.layout) (hsize : 0 < file.size) :
    Checked.Fits64 (info.pieceIndexAtFile file) := by
  have hfits := pieceOf_fits (h.streamable hfile hsize) (le_refl 0) hsize
  rw [pieceOf_first] at hfits
  exact ⟨by have := hfits.1; omega, by have := hfits.2; omega⟩

theorem InfoFits.last {info : TorrentInfo} (h : InfoFits info) {file : FileEntry}
    (hfile : file ∈ info.layout) (hsize : 0 < file.size) :
    Checked.Fits64 (info.lastPieceIndexAtFile file) := by
  have hfits := pieceOf_fits (h.streamable hfile hsize) (by omega : 0 ≤ file.size - 1) (by omega)
  rw [pieceOf_last] at hfits
  exact ⟨by have := hfits.1; omega, by have := hfits.2; omega⟩

theorem decodeInteger_nat {n : Nat} (h : n ≤ 2147483647) :
    decodeInteger 64 (.number n) = some (n : Int) := by
  have hfits : Checked.Fits64 n := ⟨by omega, by omega⟩
  have hdecode := decodeInteger_fits hfits
  rwa [Int.cast_natCast] at hdecode

theorem decode_file {env : Environment} {handle : Handle} {info : TorrentInfo}
    (hinfo : InfoFits info) (hprogress : ∀ n ∈ env.fileProgress handle, Checked.Fits64 n)
    {x : FileEntry × Nat} (hx : x ∈ info.layout.zipIdx) :
    TorrentFileInfo.decode (fileItem info (env.getFilePriorities handle) (env.fileProgress handle)
      x).2 = some (shownFile env handle info x) := by
  have hfile := List.fst_mem_of_mem_zipIdx hx
  have hlt := List.snd_lt_of_mem_zipIdx hx
  obtain ⟨ho, hs, hf⟩ := hinfo.files x.1 hfile
  have hbytes := hinfo.bytes
  have hcount := hinfo.count
  obtain ⟨members, hitem⟩ : ∃ members, (fileItem info (env.getFilePriorities handle)
    (env.fileProgress handle) x).2 = .object members := ⟨_, rfl⟩
  have hindex : decodeKey members (decodeInteger 64) "index" = some (x.2 : Int) := by
    cases hitem
    exact decodeKey_eq rfl (decodeInteger_nat (by omega))
  have hpath : decodeKey members decodeString "path" =
      some (shown ((safeRelativePath x.1).getD "")) := by
    cases hitem
    rfl
  have hsize : decodeKey members (decodeInteger 64) "size" = some x.1.size := by
    cases hitem
    exact decodeKey_eq rfl (decodeInteger_fits ⟨by omega, by omega⟩)
  have hoffset : decodeKey members (decodeInteger 64) "torrentOffset" = some x.1.offset := by
    cases hitem
    exact decodeKey_eq rfl (decodeInteger_fits ⟨by omega, by omega⟩)
  have hfirst : decodeIfPresent members (decodeInteger 64) "firstPieceIndex" =
      some (if 0 < x.1.size then some (info.pieceIndexAtFile x.1) else none) := by
    cases hitem
    exact decodeIfPresent_ite rfl (by simp) fun h => decodeInteger_fits (hinfo.first hfile h)
  have hlast : decodeIfPresent members (decodeInteger 64) "lastPieceIndex" =
      some (if 0 < x.1.size then some (info.lastPieceIndexAtFile x.1) else none) := by
    cases hitem
    exact decodeIfPresent_ite rfl (by simp) fun h => decodeInteger_fits (hinfo.last hfile h)
  have hselected : decodeKey members decodeBool "isSelected" =
      some (((env.getFilePriorities handle)[x.2]?).any (· ≠ dontDownload)) := by
    cases hitem
    rfl
  have hcompleted : decodeKey members (decodeInteger 64) "completedBytes" =
      some (((env.fileProgress handle)[x.2]?).getD 0) := by
    cases hitem
    refine decodeKey_eq rfl (decodeInteger_fits ?_)
    cases hget : (env.fileProgress handle)[x.2]? with
    | none => exact ⟨by decide, by decide⟩
    | some n => exact hprogress n (List.mem_of_getElem? hget)
  unfold TorrentFileInfo.decode
  rw [hitem]
  dsimp only
  rw [hindex, hpath, hsize, hoffset, hfirst, hlast, hselected, hcompleted]
  rfl

theorem decode_metadata {env : Environment} {handle : Handle} {info : TorrentInfo}
    (hinfo : InfoFits info) (hprogress : ∀ n ∈ env.fileProgress handle, Checked.Fits64 n) :
    TorrentMetadata.decode (metadataValue info ((info.layout.zipIdx.map
      (fileItem info (env.getFilePriorities handle) (env.fileProgress handle))).map Prod.snd)) =
        some (shownMetadata env handle info) := by
  obtain ⟨hlength, hpieces, htotal, -, -⟩ := id hinfo
  obtain ⟨members, hmembers⟩ : ∃ members, metadataValue info ((info.layout.zipIdx.map
    (fileItem info (env.getFilePriorities handle) (env.fileProgress handle))).map Prod.snd) =
      .object members := ⟨_, rfl⟩
  have hname : decodeKey members decodeString "name" = some (shown info.name) := by
    cases hmembers
    rfl
  have hash (key : String) (hash : Option String)
      (hlookup : members.lookup key = some (hashValue hash)) :
      decodeIfPresent members decodeString key = some hash := by
    unfold decodeIfPresent
    rw [hlookup]
    cases hash <;> rfl
  have hv1 := hash "infoHashV1" info.infoHashes.v1 (by cases hmembers; rfl)
  have hv2 := hash "infoHashV2" info.infoHashes.v2 (by cases hmembers; rfl)
  have hpieceLength : decodeKey members (decodeInteger 64) "pieceLength" =
      some info.pieceLength := by
    cases hmembers
    exact decodeKey_eq rfl (decodeInteger_fits ⟨by omega, by omega⟩)
  have hpieceCount : decodeKey members (decodeInteger 64) "pieceCount" =
      some (info.numPieces : Int) := by
    cases hmembers
    exact decodeKey_eq rfl (decodeInteger_nat hpieces)
  have htotalBytes : decodeKey members (decodeInteger 64) "totalBytes" = some info.totalSize := by
    cases hmembers
    exact decodeKey_eq rfl (decodeInteger_fits ⟨by omega, htotal.2⟩)
  have hdate : decodeIfPresent members decodeDouble "creationDate" =
      some (if 0 < info.creationDate then some (info.creationDate : ℚ) else none) := by
    cases hmembers
    exact decodeIfPresent_ite rfl (by simp) fun _ => rfl
  have hcreator : decodeIfPresent members decodeString "creator" =
      some (if info.creator ≠ "" then some (shown info.creator) else none) := by
    cases hmembers
    exact decodeIfPresent_ite rfl (by simp) fun _ => rfl
  have hfiles : decodeKey members (decodeArray TorrentFileInfo.decode) "files" =
      some (info.layout.zipIdx.map (shownFile env handle info)) := by
    cases hmembers
    refine decodeKey_eq rfl ?_
    rw [List.map_map]
    exact decodeArray_map fun x hx => decode_file hinfo hprogress hx
  unfold TorrentMetadata.decode
  rw [hmembers]
  dsimp only
  rw [hname, hv1, hv2, hpieceLength, hpieceCount, htotalBytes, hdate, hcreator, hfiles]
  rfl

theorem lookup_files (env : Environment) (handle : Handle) (info : TorrentInfo)
    (files : List FileEntry) (n : Nat) (index : Int) :
    (((files.zipIdx n).map (shownFile env handle info)).map fun file =>
        (file.index, GeometryFile.mk file.torrentOffset file.size)).lookup index =
      if (n : Int) ≤ index then
        (files[(index - n).toNat]?).map fun file => GeometryFile.mk file.offset file.size
      else none := by
  induction files generalizing n with
  | nil => simp
  | cons file files ih =>
      rw [List.zipIdx_cons, List.map_cons, List.map_cons, List.lookup_cons, ih]
      by_cases heq : index = n
      · subst heq
        simp [shownFile]
      · have hne : (index == (shownFile env handle info (file, n)).index) = false := by
          simpa [shownFile] using heq
        rw [hne]
        dsimp only
        by_cases hle : (n : Int) ≤ index
        · have hnext : (index - n).toNat = (index - (n + 1 : Nat)).toNat + 1 := by omega
          rw [if_pos hle, if_pos (by omega), hnext, List.getElem?_cons_succ]
        · rw [if_neg hle, if_neg (by omega)]

/-- The geometry that is made of the metadata is that of the engine. -/
theorem make_files (env : Environment) (handle : Handle) (info : TorrentInfo) (index : Int) :
    (TorrentGeometry.make (shownMetadata env handle info)).files.lookup index =
      if 0 ≤ index then
        (info.layout[index.toNat]?).map fun file => GeometryFile.mk file.offset file.size
      else none := by
  have hfiles := lookup_files env handle info info.layout 0 index
  rwa [Nat.cast_zero, Int.sub_zero] at hfiles

end Swift

theorem filesJson_isSome (info : TorrentInfo) (priorities : List Priority) (progress : List Int)
    (index : Nat) (files : List FileEntry) :
    (filesJson info priorities progress index files).isSome = true ↔
      ∀ file ∈ files, (safeRelativePath file).isSome = true := by
  induction files generalizing index with
  | nil => exact iff_of_true rfl fun file hfile => by cases hfile
  | cons file files ih =>
      rw [filesJson, List.forall_mem_cons]
      cases hpath : safeRelativePath file with
      | none => simp
      | some path => simpa using ih (index + 1)

theorem metadataJson_isSome {env : Environment} {handle : Handle} {info : TorrentInfo}
    (hinfo : env.torrentFile handle = some info) :
    (metadataJson env handle).isSome = true ↔
      ∀ file ∈ info.layout, (safeRelativePath file).isSome = true := by
  rw [← filesJson_isSome info (env.getFilePriorities handle) (env.fileProgress handle) 0]
  unfold metadataJson
  rw [hinfo]
  exact Bool.eq_iff_iff.mp Option.isSome_map

namespace Swift

/-- What the engine says about a torrent fits into the integers of Swift. -/
structure Fits (env : Environment) (handle : Handle) (info : TorrentInfo) : Prop where
  ranges : InfoFits info
  hashes : HexHashes info.infoHashes
  progress : ∀ n ∈ env.fileProgress handle, Checked.Fits64 n
  availability : ∀ n ∈ env.pieceAvailability handle, Checked.Fits64 n
  priorities : ∀ p ∈ env.getPiecePriorities handle, p ≤ 7

theorem decode_metadataJson {env : Environment} {handle : Handle} {info : TorrentInfo}
    {text : String} (hinfo : env.torrentFile handle = some info) (hfits : Fits env handle info)
    (htext : metadataJson env handle = some text) :
    decodeJSON TorrentMetadata.decode text = some (shownMetadata env handle info) := by
  have hsafe := (metadataJson_isSome hinfo).mp (by rw [htext]; rfl)
  obtain ⟨text', htext', hreads⟩ := reads_metadata hinfo hfits.hashes hsafe
  obtain rfl := Option.some.inj (htext.symm.trans htext')
  rw [decodeJSON_of_reads hreads, decode_metadata hfits.ranges hfits.progress]

/-- **The metadata arrive as they are.** An active torrent whose metadata are there answers at once.
If all its paths are safe, the text is decoded to its metadata, with the geometry of the engine;
else the torrent is stopped. -/
theorem metadata_roundTrips {s : Session} {env : Environment} {id : String} {value : Job}
    {info : TorrentInfo} {timeoutMs : Int} (htimeout : 0 ≤ timeoutMs)
    (hvalue : s.jobs.lookup id = some value) (hactive : value.stopped = false)
    (hready : value.metadataReady = true) (hinfo : env.torrentFile value.handle = some info)
    (hfits : Fits env value.handle info) (hbuffer : env.malloc = true) :
    ((∀ file ∈ info.layout, (safeRelativePath file).isSome = true) → ∃ text geometry,
      s.enter env (.metadata id timeoutMs) = some (s, some { code := .ok, output := .text text }) ∧
      decodeJSON TorrentMetadata.decode text = some (shownMetadata env value.handle info) ∧
      geometryOf text = some geometry ∧ geometry.pieceLength = info.pieceLength ∧
      ∀ index : Int, geometry.files.lookup index =
        if 0 ≤ index then
          (info.layout[index.toNat]?).map fun file => GeometryFile.mk file.offset file.size
        else none) ∧
    ((∃ file ∈ info.layout, safeRelativePath file = none) → ∃ s' response,
      s.enter env (.metadata id timeoutMs) = some (s', some response) ∧
      response.code = .pathViolation ∧
      s'.jobs = s.jobs.insert id { value with stopped := true }) := by
  have hcall : s.enter env (.metadata id timeoutMs) =
      (s.metadataResult env id).map Session.returning := by
    show s.ltkitSessionMetadata env id timeoutMs = _
    unfold Session.ltkitSessionMetadata
    rw [if_neg (not_lt.mpr htimeout), hvalue]
    simp [hactive, hready]
  have havailable : ¬ (value.stopped || (env.torrentFile value.handle).isNone) = true := by
    simp [hactive, hinfo]
  constructor
  · intro hsafe
    obtain ⟨text, htext⟩ := Option.isSome_iff_exists.mp ((metadataJson_isSome hinfo).mpr hsafe)
    have hdecode := decode_metadataJson hinfo hfits htext
    refine ⟨text, TorrentGeometry.make (shownMetadata env value.handle info), ?_, hdecode, ?_, rfl,
      make_files env value.handle info⟩
    · rw [hcall]
      unfold Session.metadataResult
      rw [hvalue]
      dsimp only
      rw [if_neg havailable, htext]
      simp [Session.reply, copyBuffer, hbuffer, Session.returning]
    · unfold geometryOf
      rw [show TorrentMetadata.decodeJSON text = decodeJSON TorrentMetadata.decode text from rfl,
        hdecode, Option.map_some]
  · rintro ⟨file, hfile, hpath⟩
    have hnone : metadataJson env value.handle = none := by
      by_contra hsome
      have := (metadataJson_isSome hinfo).mp (Option.isSome_iff_ne_none.mpr hsome) file hfile
      rw [hpath] at this
      cases this
    rw [hcall]
    unfold Session.metadataResult
    rw [hvalue]
    dsimp only
    rw [if_neg havailable, hnone]
    exact ⟨_, _, rfl, rfl, rfl⟩

/-- A session with one active torrent, whose metadata are there. -/
def readySession : Session :=
  { jobs := Finmap.singleton "a" { tunedJob with metadataReady := true } }

theorem readySession_lookup :
    readySession.jobs.lookup "a" = some { tunedJob with metadataReady := true } :=
  Finmap.lookup_singleton_eq

theorem quotedInfo_fits : Fits quotedEnvironment 1 quotedInfo where
  ranges := ⟨by decide, by decide, by decide, by decide, by decide⟩
  hashes := by
    constructor
    · intro hash h
      cases h
    · intro hash h
      cases h
      simp [HexDigits]
  progress := by decide
  availability := by decide
  priorities := by decide

/-- An empty file and one of ten bytes, whose paths are shown without what is empty in them. -/
theorem quotedInfo_roundTrips : ∃ text geometry,
    readySession.enter quotedEnvironment (.metadata "a" 0) =
      some (readySession, some { code := .ok, output := .text text }) ∧
    geometryOf text = some geometry ∧ geometry.pieceLength = 16 ∧
    geometry.files.lookup 1 = some ⟨0, 10⟩ ∧ geometry.files.lookup 2 = none := by
  obtain ⟨text, geometry, hcall, -, hgeometry, hlength, hfiles⟩ :=
    (@metadata_roundTrips readySession quotedEnvironment "a" _ quotedInfo 0 (by decide)
      readySession_lookup rfl rfl rfl quotedInfo_fits rfl).1 (by decide +kernel)
  exact ⟨text, geometry, hcall, hgeometry, hlength, hfiles 1, hfiles 2⟩

/-! ## Windows -/

structure TorrentStreamingWindow where
  fileIndex : Int
  requestedByteOffset : Int
  firstPieceIndex : Int
  lastPieceIndex : Int
  playbackPieceIndex : Int
  prioritizedPieceIndexes : List Int
  deadlinePieceIndexes : List Int
  deriving DecidableEq, Repr

def TorrentStreamingWindow.decode : Value → Option TorrentStreamingWindow
  | .object members => do
      let fileIndex ← decodeKey members (decodeInteger 64) "fileIndex"
      let requestedByteOffset ← decodeKey members (decodeInteger 64) "requestedByteOffset"
      let firstPieceIndex ← decodeKey members (decodeInteger 64) "firstPieceIndex"
      let lastPieceIndex ← decodeKey members (decodeInteger 64) "lastPieceIndex"
      let playbackPieceIndex ← decodeKey members (decodeInteger 64) "playbackPieceIndex"
      let prioritizedPieceIndexes ←
        decodeKey members (decodeArray (decodeInteger 64)) "prioritizedPieceIndexes"
      let deadlinePieceIndexes ←
        decodeKey members (decodeArray (decodeInteger 64)) "deadlinePieceIndexes"
      pure { fileIndex, requestedByteOffset, firstPieceIndex, lastPieceIndex, playbackPieceIndex,
             prioritizedPieceIndexes, deadlinePieceIndexes }
  | _ => none

/-- The window as `TorrentStreamingWindow` shows it. -/
def shownWindow (fileIndex byteOffset : Int) (w : Window) : TorrentStreamingWindow where
  fileIndex
  requestedByteOffset := byteOffset
  firstPieceIndex := w.playback
  lastPieceIndex := w.warmLast
  playbackPieceIndex := w.playback
  prioritizedPieceIndexes := indexRange w.playback w.warmLast
  deadlinePieceIndexes := indexRange w.playback w.criticalLast

def windowFields (fileIndex byteOffset : Int) (w : Window) : List (String × String × Value) :=
  [numberField "fileIndex" fileIndex,
    numberField "requestedByteOffset" byteOffset,
    numberField "firstPieceIndex" w.playback,
    numberField "lastPieceIndex" w.warmLast,
    numberField "playbackPieceIndex" w.playback,
    integersField "prioritizedPieceIndexes" (indexRange w.playback w.warmLast),
    integersField "deadlinePieceIndexes" (indexRange w.playback w.criticalLast)]

theorem windowJson_text (fileIndex byteOffset : Int) (w : Window) :
    (windowJson fileIndex byteOffset w).toList =
      '\x7b' :: fieldsText (windowFields fileIndex byteOffset w) := by
  -- the pieces that the source writes, cut at the keys
  have hindex : "\x7b\"fileIndex\":" = "\x7b\"" ++ ("fileIndex" ++ "\":") := rfl
  have hoffset : ",\"requestedByteOffset\":" = ",\"" ++ ("requestedByteOffset" ++ "\":") := rfl
  have hfirst : ",\"firstPieceIndex\":" = ",\"" ++ ("firstPieceIndex" ++ "\":") := rfl
  have hlast : ",\"lastPieceIndex\":" = ",\"" ++ ("lastPieceIndex" ++ "\":") := rfl
  have hplayback : ",\"playbackPieceIndex\":" = ",\"" ++ ("playbackPieceIndex" ++ "\":") := rfl
  have hprioritized : ",\"prioritizedPieceIndexes\":[" =
      ",\"" ++ ("prioritizedPieceIndexes" ++ ("\":" ++ "[")) := rfl
  have hdeadlines : "],\"deadlinePieceIndexes\":[" =
      "]" ++ (",\"" ++ ("deadlinePieceIndexes" ++ ("\":" ++ "["))) := rfl
  have hend : "]\x7d" = "]" ++ "\x7d" := rfl
  unfold windowJson
  rw [hindex, hoffset, hfirst, hlast, hplayback, hprioritized, hdeadlines, hend]
  simp only [windowFields, fieldsText, numberField, integersField, arrayField, member,
    String.toList_append, List.append_assoc, List.cons_append, List.nil_append, brace_toList,
    comma_toList, colon_toList, close_toList]

theorem reads_window (fileIndex byteOffset : Int) (w : Window) :
    Reads (windowJson fileIndex byteOffset w).toList
      (.object (membersOf (windowFields fileIndex byteOffset w))) := by
  rw [windowJson_text]
  refine reads_fields (by simp [windowFields]) ?_
  unfold windowFields
  simp only [List.forall_mem_cons]
  exact ⟨numberField_reads (by decide) _, numberField_reads (by decide) _,
    numberField_reads (by decide) _, numberField_reads (by decide) _,
    numberField_reads (by decide) _, integersField_reads (by decide) _,
    integersField_reads (by decide) _, fun f hf => by cases hf⟩

/-- The reply is decoded to the window, whose pieces are those of a file. -/
theorem decode_windowJson {fileIndex byteOffset : Int} {w : Window}
    (hindex : Checked.Fits64 fileIndex) (hoffset : Checked.Fits64 byteOffset)
    (hfirst : -9223372036854775808 ≤ w.playback) (hcritical : w.criticalLast ≤ w.warmLast)
    (hplayback : w.playback ≤ w.criticalLast) (hlast : w.warmLast ≤ 9223372036854775807) :
    decodeJSON TorrentStreamingWindow.decode (windowJson fileIndex byteOffset w) =
      some (shownWindow fileIndex byteOffset w) := by
  have hwarm : ∀ n ∈ indexRange w.playback w.warmLast, Checked.Fits64 n := fun n hn => by
    obtain ⟨hlo, hhi⟩ := mem_indexRange.mp hn
    exact ⟨by omega, by omega⟩
  have hdeadlines : ∀ n ∈ indexRange w.playback w.criticalLast, Checked.Fits64 n := fun n hn => by
    obtain ⟨hlo, hhi⟩ := mem_indexRange.mp hn
    exact ⟨by omega, by omega⟩
  have hpiece : decodeInteger 64 (.number w.playback) = some w.playback :=
    decodeInteger_fits ⟨hfirst, by omega⟩
  have hend : decodeInteger 64 (.number w.warmLast) = some w.warmLast :=
    decodeInteger_fits ⟨by omega, hlast⟩
  rw [decodeJSON_of_reads (reads_window fileIndex byteOffset w)]
  unfold TorrentStreamingWindow.decode
  dsimp only
  rw [decodeKey_eq rfl (decodeInteger_fits hindex), decodeKey_eq rfl (decodeInteger_fits hoffset),
    decodeKey_eq rfl hpiece, decodeKey_eq rfl hend, decodeKey_eq rfl hpiece,
    decodeKey_eq rfl (decodeArray_integers hwarm),
    decodeKey_eq rfl (decodeArray_integers hdeadlines)]
  rfl

/-! ## Pieces -/

structure TorrentPieceSnapshot where
  completed : List Bool
  availability : List Int
  priorities : List Int
  deadlinePieceIndexes : List Int
  deriving DecidableEq, Repr

def TorrentPieceSnapshot.decode : Value → Option TorrentPieceSnapshot
  | .object members => do
      let completed ← decodeKey members (decodeArray decodeBool) "completed"
      let availability ← decodeKey members (decodeArray (decodeInteger 64)) "availability"
      let priorities ← decodeKey members (decodeArray (decodeInteger 64)) "priorities"
      let deadlinePieceIndexes ←
        decodeKey members (decodeArray (decodeInteger 64)) "deadlinePieceIndexes"
      pure { completed, availability, priorities, deadlinePieceIndexes }
  | _ => none

/-- The pieces of a job as `TorrentPieceSnapshot` shows them. -/
def shownPieces (env : Environment) (value : Job) (info : TorrentInfo) : TorrentPieceSnapshot where
  completed := (List.range info.numPieces).map (env.havePiece value.handle)
  availability := (List.range (env.getPiecePriorities value.handle).length).map fun i =>
    ((env.pieceAvailability value.handle)[i]?).getD 0
  priorities := (env.getPiecePriorities value.handle).map fun p : Priority => (p : Int)
  deadlinePieceIndexes := Session.ascending value.deadlinePieces

def piecesFields (pieces : TorrentPieceSnapshot) : List (String × String × Value) :=
  [boolsField "completed" pieces.completed,
    integersField "availability" pieces.availability,
    integersField "priorities" pieces.priorities,
    integersField "deadlinePieceIndexes" pieces.deadlinePieceIndexes]

theorem piecesJson_text (env : Environment) (value : Job) (info : TorrentInfo) :
    (Session.piecesJson env value info).toList =
      '\x7b' :: fieldsText (piecesFields (shownPieces env value info)) := by
  have hcompleted : "\x7b\"completed\":[" = "\x7b\"" ++ ("completed" ++ ("\":" ++ "[")) := rfl
  have havailability : "],\"availability\":[" =
      "]" ++ (",\"" ++ ("availability" ++ ("\":" ++ "["))) := rfl
  have hpriorities : "],\"priorities\":[" =
      "]" ++ (",\"" ++ ("priorities" ++ ("\":" ++ "["))) := rfl
  have hdeadlines : "],\"deadlinePieceIndexes\":[" =
      "]" ++ (",\"" ++ ("deadlinePieceIndexes" ++ ("\":" ++ "["))) := rfl
  have hend : "]\x7d" = "]" ++ "\x7d" := rfl
  have htext : (toString : Priority → String) = fun p : Priority => toString (p : Int) := rfl
  unfold Session.piecesJson
  rw [hcompleted, havailability, hpriorities, hdeadlines, hend]
  simp only [piecesFields, shownPieces, fieldsText, integersField, boolsField, arrayField, member,
    String.toList_append, List.append_assoc, List.cons_append, List.nil_append, brace_toList,
    comma_toList, colon_toList, close_toList, List.map_map, Function.comp_def, htext]

theorem reads_pieces (env : Environment) (value : Job) (info : TorrentInfo) :
    Reads (Session.piecesJson env value info).toList
      (.object (membersOf (piecesFields (shownPieces env value info)))) := by
  rw [piecesJson_text]
  refine reads_fields (by simp [piecesFields]) ?_
  unfold piecesFields
  simp only [List.forall_mem_cons]
  exact ⟨boolsField_reads (by decide) _, integersField_reads (by decide) _,
    integersField_reads (by decide) _, integersField_reads (by decide) _, fun f hf => by cases hf⟩

theorem decode_piecesJson {env : Environment} {value : Job} {info : TorrentInfo}
    (hfits : Fits env value.handle info)
    (hdeadlines : ∀ n ∈ value.deadlinePieces, Checked.Fits64 n) :
    decodeJSON TorrentPieceSnapshot.decode (Session.piecesJson env value info) =
      some (shownPieces env value info) := by
  have havailability : ∀ n ∈ (shownPieces env value info).availability, Checked.Fits64 n := by
    intro n hn
    obtain ⟨i, -, rfl⟩ := List.mem_map.mp hn
    cases hget : (env.pieceAvailability value.handle)[i]? with
    | none => exact ⟨by decide, by decide⟩
    | some n => exact hfits.availability n (List.mem_of_getElem? hget)
  have hpriorities : ∀ n ∈ (shownPieces env value info).priorities, Checked.Fits64 n := by
    intro n hn
    obtain ⟨p, hp, rfl⟩ := List.mem_map.mp hn
    have hle : (p : Int) ≤ 7 := by exact_mod_cast hfits.priorities p hp
    exact ⟨by omega, by omega⟩
  have hlisted : ∀ n ∈ (shownPieces env value info).deadlinePieceIndexes, Checked.Fits64 n :=
    fun n hn => hdeadlines n ((Finset.mem_sort _).mp hn)
  rw [decodeJSON_of_reads (reads_pieces env value info)]
  unfold TorrentPieceSnapshot.decode
  dsimp only
  rw [decodeKey_eq rfl (decodeArray_bools _), decodeKey_eq rfl (decodeArray_integers havailability),
    decodeKey_eq rfl (decodeArray_integers hpriorities),
    decodeKey_eq rfl (decodeArray_integers hlisted)]
  rfl

/-! ## From the metadata to the window -/

/-- The actor accepts a request exactly if it names bytes of a file. -/
theorem accepts_iff {env : Environment} {handle : Handle} {info : TorrentInfo}
    (hfits : InfoFits info) {r : WindowRequest} (hc : Checked.Fits64 r.criticalBufferBytes)
    (hw : Checked.Fits64 r.warmBufferBytes) :
    (TorrentGeometry.make (shownMetadata env handle info)).accepts r = true ↔
      0 ≤ r.fileIndex ∧ ∃ file, info.layout[r.fileIndex.toNat]? = some file ∧
        Request file r.byteOffset r.criticalBufferBytes r.warmBufferBytes
          r.consumptionBytesPerSecond := by
  have hlength : (TorrentGeometry.make (shownMetadata env handle info)).pieceLength =
      info.pieceLength := rfl
  unfold TorrentGeometry.accepts
  rw [make_files, hlength]
  by_cases hindex : 0 ≤ r.fileIndex
  · rw [if_pos hindex, and_iff_right hindex]
    cases hlayout : info.layout[r.fileIndex.toNat]? with
    | none => simp
    | some file =>
        simp only [Option.map_some, Option.some.injEq, exists_eq_left']
        by_cases hsize : 0 < file.size
        · have hfile := hfits.streamable (List.mem_of_getElem? hlayout) hsize
          rcases make_eq r.byteOffset r.consumptionBytesPerSecond hfile hc hw with
            ⟨hreq, hmake⟩ | ⟨hreq, hmake⟩
          · rw [hmake]
            exact iff_of_true rfl hreq
          · rw [hmake]
            exact iff_of_false (by simp) hreq
        · unfold PieceWindowPlan.make
          rw [if_pos hsize]
          refine iff_of_false (by simp) fun hreq => hsize ?_
          have := hreq.offset
          have := hreq.inside
          omega
  · rw [if_neg hindex]
    simp [hindex]

end Swift

/-- A call that works on an active job answers, if it only gives commands and finds a buffer. -/
theorem Session.onActive_answers {s : Session} {env : Environment} {id m : String} {value : Job}
    {body : Job → Job × List Action × Reply} {output : Output}
    (hvalue : s.jobs.lookup id = some value) (hactive : value.stopped = false)
    (htuning : Tuning (body value).2.1) (hanswer : (body value).2.2 = .ok output)
    (hbuffer : env.malloc = true) :
    ∃ s', s.onActive env id m body = some (s', { code := .ok, output }) ∧
      s'.jobs = s.jobs.insert id (body value).1 := by
  obtain ⟨s', hs'⟩ := performAll_tuning (s.setJob id (body value).1) env id htuning
  refine ⟨s', ?_, (performAll_spec hs').1⟩
  unfold onActive
  rw [hvalue]
  simp only [hactive, Bool.false_eq_true, if_false, update, hs', Option.map_some, hanswer, reply,
    copyBuffer, hbuffer, Bool.or_true, if_true]

theorem indexRange_sorted (first last : Int) :
    Session.ascending (indexRange first last).toFinset = indexRange first last := by
  have hmap : indexRange first last =
      (List.range (last - first + 1).toNat).map fun k : Nat => first + (k : Int) := by
    simp [indexRange, List.map_eq_flatMap, List.flatMap_assoc]
  have hlt : (indexRange first last).Pairwise (· < ·) := by
    rw [hmap, List.pairwise_map]
    exact List.pairwise_lt_range.imp fun hab => by omega
  exact (List.toFinset_sort (· ≤ ·) (hlt.imp fun hab => ne_of_lt hab)).mpr
    (hlt.imp fun hab => le_of_lt hab)

namespace Swift

/-- A successful update names a file of the torrent and bytes of it. -/
theorem updateStreamingWindow_request {env : Environment} {value : Job} {info : TorrentInfo}
    {fileIndex byteOffset criticalBytes warmBytes rate : Int} {edges : Bool} {output : Output}
    (hinfo : env.torrentFile value.handle = some info)
    (h : (updateStreamingWindow env value fileIndex byteOffset criticalBytes warmBytes rate
      edges).2.2 = .ok output) :
    ∃ file, info.layout[fileIndex.toNat]? = some file ∧ byteOffset < file.size := by
  unfold updateStreamingWindow at h
  simp only [hinfo] at h
  split at h
  · cases h
  · next file hfile =>
      split at h
      · cases h
      · split at h
        · cases h
        · next hrange => exact ⟨file, hfile, by omega⟩

theorem pieces_answers {s : Session} {env : Environment} {id : String} {value : Job}
    {info : TorrentInfo} (hvalue : s.jobs.lookup id = some value) (hactive : value.stopped = false)
    (hinfo : env.torrentFile value.handle = some info) (hbuffer : env.malloc = true) :
    ∃ s', s.ltkitSessionPieces env id = some (s',
      { code := .ok, output := .text (Session.piecesJson env value info) }) := by
  unfold Session.ltkitSessionPieces
  exact (Session.onActive_answers hvalue hactive (by simp [hinfo, Tuning.nil]) (by simp [hinfo])
    hbuffer).imp fun _ h => h.1

/-- The answer to a request for bytes of a file, and the job behind it. -/
theorem window_answers {s : Session} {env : Environment} {value : Job} {info : TorrentInfo}
    {file : FileEntry} {r : WindowRequest} (hvalue : s.jobs.lookup r.id = some value)
    (hactive : value.stopped = false) (hinfo : env.torrentFile value.handle = some info)
    (hlength : 0 < info.pieceLength) (hlayout : info.layout[r.fileIndex.toNat]? = some file)
    (hreq : Request file r.byteOffset r.criticalBufferBytes r.warmBufferBytes
      r.consumptionBytesPerSecond) (hindex : 0 ≤ r.fileIndex)
    (hdesired : r.fileIndex ∈ value.desiredFiles) (hselected : (selectedFiles info value).2 = true)
    (hbuffer : env.malloc = true) :
    ∃ s' value', s.enter env r.api = some (s', some { code := .ok, output := .text (windowJson
        r.fileIndex r.byteOffset (requestWindow info file r.byteOffset r.criticalBufferBytes
          r.warmBufferBytes)) }) ∧
      s'.jobs.lookup r.id = some value' ∧ value'.handle = value.handle ∧
      value'.stopped = false ∧ value'.deadlinePieces = (indexRange (pieceOf info file r.byteOffset)
        (pieceOf info file (lastByte file r.byteOffset r.criticalBufferBytes))).toFinset := by
  have hsize : 0 < file.size := by
    have := hreq.offset
    have := hreq.inside
    omega
  have hanswer : (updateStreamingWindow env value r.fileIndex r.byteOffset r.criticalBufferBytes
      r.warmBufferBytes r.consumptionBytesPerSecond r.prioritizeFirstAndLastPieces).2.2 =
        .ok (.text (windowJson r.fileIndex r.byteOffset (requestWindow info file r.byteOffset
          r.criticalBufferBytes r.warmBufferBytes))) := by
    rw [updateStreamingWindow_reply hinfo hlayout hdesired hselected hsize,
      if_neg (not_le.mpr hreq.inside), streamingWindow_eq hlength hreq]
  obtain ⟨hselects, hprioritizing⟩ := updateStreamingWindow_spec env value r.fileIndex r.byteOffset
    r.criticalBufferBytes r.warmBufferBytes r.consumptionBytesPerSecond
    r.prioritizeFirstAndLastPieces
  obtain ⟨s', hs', hjobs⟩ := @Session.onActive_answers s env r.id
    "The streaming response could not be allocated." value (fun value => updateStreamingWindow env
      value r.fileIndex r.byteOffset r.criticalBufferBytes r.warmBufferBytes
      r.consumptionBytesPerSecond r.prioritizeFirstAndLastPieces) _ hvalue hactive
    hprioritizing.tuning hanswer hbuffer
  have hargs : ¬ (r.fileIndex < 0 ∨ r.byteOffset < 0 ∨ r.criticalBufferBytes ≤ 0 ∨
      r.warmBufferBytes < r.criticalBufferBytes ∨ r.consumptionBytesPerSecond ≤ 0) := by
    obtain ⟨h0, h1, h2, h3, h4⟩ := hreq
    omega
  have hcall : s.enter env r.api = some (s', some { code := .ok, output := .text (windowJson
      r.fileIndex r.byteOffset (requestWindow info file r.byteOffset r.criticalBufferBytes
        r.warmBufferBytes)) }) := by
    show (s.ltkitSessionUpdateStreamingWindow env r.id r.fileIndex r.byteOffset
      r.criticalBufferBytes r.warmBufferBytes r.consumptionBytesPerSecond
      r.prioritizeFirstAndLastPieces).map Session.returning = _
    unfold Session.ltkitSessionUpdateStreamingWindow
    rw [if_neg hargs, hs']
    rfl
  have hjob : s'.jobs.lookup r.id = some (updateStreamingWindow env value r.fileIndex r.byteOffset
      r.criticalBufferBytes r.warmBufferBytes r.consumptionBytesPerSecond
      r.prioritizeFirstAndLastPieces).1 := by
    rw [hjobs, Finmap.lookup_insert]
  refine ⟨s', _, hcall, hjob, ?_, ?_, ?_⟩
  · obtain ⟨desired, files, pieces, primary, ready, deadlines, heq, -⟩ := hselects
    rw [heq]
    rfl
  · obtain ⟨desired, files, pieces, primary, ready, deadlines, heq, -⟩ := hselects
    rw [heq]
    exact hactive
  · obtain ⟨commands, -, heffect⟩ := updateStreamingWindow_effect hinfo hanswer []
    cases heffect with
    | update hfile hfiles hpriorities hpieces hdeadlines =>
        obtain rfl := Option.some.inj (hlayout.symm.trans hfile)
        rw [hdeadlines, streamingWindow_eq hlength hreq]
        rfl

/-- The window that a plan announces. -/
def shownPlan (r : WindowRequest) (plan : PieceWindowPlan) : TorrentStreamingWindow where
  fileIndex := r.fileIndex
  requestedByteOffset := r.byteOffset
  firstPieceIndex := plan.playbackPiece
  lastPieceIndex := plan.warmLastPiece
  playbackPieceIndex := plan.playbackPiece
  prioritizedPieceIndexes := indexRange plan.playbackPiece plan.warmLastPiece
  deadlinePieceIndexes := indexRange plan.playbackPiece plan.criticalLastPiece

theorem decode_planned {info : TorrentInfo} {file : FileEntry} {r : WindowRequest}
    (hfile : Streamable info file) (hreq : Request file r.byteOffset r.criticalBufferBytes
      r.warmBufferBytes r.consumptionBytesPerSecond) (hindex : Checked.Fits32 r.fileIndex) :
    decodeJSON TorrentStreamingWindow.decode (windowJson r.fileIndex r.byteOffset
      (requestWindow info file r.byteOffset r.criticalBufferBytes r.warmBufferBytes)) =
        some (shownPlan r (requestPlan info file r.byteOffset r.criticalBufferBytes
          r.warmBufferBytes)) := by
  obtain ⟨hfirst, hcritical, hwarm, hlast⟩ := requestWindow_order hfile.length hreq
  obtain ⟨hlow, -⟩ := pieceOf_fits hfile (le_refl 0) hfile.size
  have hsize := hfile.size
  obtain ⟨-, hhigh⟩ := pieceOf_fits hfile (by omega : 0 ≤ file.size - 1) (by omega)
  obtain ⟨hindexLow, hindexHigh⟩ := hindex
  have hoffset : Checked.Fits64 r.byteOffset := by
    have h0 := hreq.offset
    have h1 := hreq.inside
    have ho := hfile.offset
    have hf := hfile.fits
    exact ⟨by omega, by omega⟩
  refine decode_windowJson ⟨by omega, by omega⟩ hoffset ?_ hwarm hcritical ?_
  · show _ ≤ pieceOf info file r.byteOffset
    omega
  · show pieceOf info file (lastByte file r.byteOffset r.warmBufferBytes) ≤ _
    omega

/-- A request that succeeds names bytes of a file. -/
theorem request_of_ok {s s' : Session} {env : Environment} {value : Job} {info : TorrentInfo}
    {r : WindowRequest} {response : Response} (hvalue : s.jobs.lookup r.id = some value)
    (hinfo : env.torrentFile value.handle = some info)
    (hcall : s.enter env r.api = some (s', some response)) (hok : response.code = .ok) :
    0 ≤ r.fileIndex ∧ ∃ file, info.layout[r.fileIndex.toNat]? = some file ∧
      Request file r.byteOffset r.criticalBufferBytes r.warmBufferBytes
        r.consumptionBytesPerSecond := by
  obtain ⟨⟨t, answer⟩, hanswer, heq⟩ := Option.map_eq_some_iff.mp hcall
  obtain ⟨rfl, hresponse⟩ := Prod.mk.inj heq
  obtain rfl := Option.some.inj hresponse
  unfold Session.ltkitSessionUpdateStreamingWindow at hanswer
  split at hanswer
  · obtain ⟨-, rfl⟩ := Prod.mk.inj (Option.some.inj hanswer)
    cases hok
  · next hargs =>
      obtain ⟨value₀, output, hvalue₀, hreply, -, -⟩ :=
        Session.onActive_ok (fun _ _ _ => updateStreamingWindow_fails) hanswer hok
      obtain rfl := Option.some.inj (hvalue.symm.trans hvalue₀)
      obtain ⟨file, hfile, hinside⟩ := updateStreamingWindow_request hinfo hreply
      exact ⟨by omega, file, hfile, by omega, hinside, by omega, by omega, by omega⟩

/-- **The window that is set is the one that was planned.** The actor has the metadata of the
torrent. For every request, the native call succeeds exactly if the actor accepts the request; then
the answer is decoded to the window that the actor has planned, and the pieces that are asked for
next list its deadlines and no others. -/
theorem window_roundTrips {s : Session} {env : Environment} {value : Job} {info : TorrentInfo}
    {text : String} {geometry : TorrentGeometry} {r : WindowRequest}
    (hvalue : s.jobs.lookup r.id = some value) (hactive : value.stopped = false)
    (hinfo : env.torrentFile value.handle = some info) (hfits : Fits env value.handle info)
    (htext : metadataJson env value.handle = some text)
    (hgeometry : geometryOf text = some geometry) (hbuffer : env.malloc = true)
    (hc : Checked.Fits64 r.criticalBufferBytes) (hw : Checked.Fits64 r.warmBufferBytes)
    (hindex : Checked.Fits32 r.fileIndex) (hdesired : r.fileIndex ∈ value.desiredFiles)
    (hselected : (selectedFiles info value).2 = true) :
    (geometry.accepts r = true ↔ ∃ s' response, s.enter env r.api = some (s', some response) ∧
      response.code = .ok) ∧
    (geometry.accepts r = true → ∃ s' json file plan,
      s.enter env r.api = some (s', some { code := .ok, output := .text json }) ∧
      geometry.files.lookup r.fileIndex = some file ∧
      PieceWindowPlan.make file.offset file.size geometry.pieceLength r.byteOffset
        r.criticalBufferBytes r.warmBufferBytes r.consumptionBytesPerSecond = some (.ok plan) ∧
      decodeJSON TorrentStreamingWindow.decode json = some (shownPlan r plan) ∧
      ∃ s'' pieces snapshot,
        s'.enter env (.pieces r.id) = some (s'', some { code := .ok, output := .text pieces }) ∧
        decodeJSON TorrentPieceSnapshot.decode pieces = some snapshot ∧
        snapshot.deadlinePieceIndexes = (shownPlan r plan).deadlinePieceIndexes) := by
  obtain rfl : geometry = TorrentGeometry.make (shownMetadata env value.handle info) := by
    have hdecode := decode_metadataJson hinfo hfits htext
    unfold geometryOf at hgeometry
    rw [show TorrentMetadata.decodeJSON text = decodeJSON TorrentMetadata.decode text from rfl,
      hdecode, Option.map_some] at hgeometry
    exact (Option.some.inj hgeometry).symm
  rw [accepts_iff hfits.ranges hc hw]
  have hforward : ∀ file, 0 ≤ r.fileIndex → info.layout[r.fileIndex.toNat]? = some file →
      Request file r.byteOffset r.criticalBufferBytes r.warmBufferBytes
        r.consumptionBytesPerSecond → ∃ s' value', _ :=
    fun file h0 hlayout hreq => window_answers hvalue hactive hinfo hfits.ranges.length.1 hlayout
      hreq h0 hdesired hselected hbuffer
  refine ⟨⟨?_, ?_⟩, ?_⟩
  · rintro ⟨h0, file, hlayout, hreq⟩
    obtain ⟨s', value', hcall, -⟩ := hforward file h0 hlayout hreq
    exact ⟨s', _, hcall, rfl⟩
  · rintro ⟨s', response, hcall, hok⟩
    exact request_of_ok hvalue hinfo hcall hok
  · rintro ⟨h0, file, hlayout, hreq⟩
    obtain ⟨s', value', hcall, hvalue', hhandle, hactive', hdeadlines⟩ :=
      hforward file h0 hlayout hreq
    have hsize : 0 < file.size := by
      have := hreq.offset
      have := hreq.inside
      omega
    have hfile := hfits.ranges.streamable (List.mem_of_getElem? hlayout) hsize
    have hdecode := decode_planned hfile hreq hindex
    obtain ⟨-, hmake⟩ := (make_eq r.byteOffset r.consumptionBytesPerSecond hfile hc
      hw).resolve_right fun h => h.1 hreq
    have hfits' : Fits env value'.handle info := hhandle ▸ hfits
    obtain ⟨s'', hpieces⟩ := pieces_answers hvalue' hactive' (hhandle ▸ hinfo) hbuffer
    have hsnapshot := @decode_piecesJson env value' info hfits' (fun n hn => by
      rw [hdeadlines, List.mem_toFinset, mem_indexRange] at hn
      obtain ⟨hfirst, hcritical, hwarm, hlast⟩ := requestWindow_order hfile.length hreq
      obtain ⟨hlow, -⟩ := pieceOf_fits hfile (le_refl 0) hsize
      obtain ⟨-, hhigh⟩ := pieceOf_fits hfile (by omega : 0 ≤ file.size - 1) (by omega)
      exact ⟨by omega, by omega⟩)
    refine ⟨s', _, ⟨file.offset, file.size⟩, requestPlan info file r.byteOffset
      r.criticalBufferBytes r.warmBufferBytes, hcall, ?_, hmake, hdecode, s'', _, _, ?_, hsnapshot,
      ?_⟩
    · rw [make_files, if_pos h0, hlayout, Option.map_some]
    · show (s'.ltkitSessionPieces env r.id).map Session.returning = _
      rw [hpieces]
      rfl
    · show Session.ascending value'.deadlinePieces = _
      rw [hdeadlines, indexRange_sorted]
      rfl

theorem tailInfo_fits : Fits tailEnvironment 1 tailInfo where
  ranges := ⟨by decide, by decide, by decide, by decide, by decide⟩
  hashes := by
    constructor
    · intro hash h
      cases h
      simp [HexDigits]
    · intro hash h
      cases h
  progress := by decide
  availability := by decide
  priorities := by decide

/-- A window over the last six bytes of two pieces, from the third of them on. -/
def tailRequest : WindowRequest where
  id := "a"
  fileIndex := 0
  byteOffset := 3
  criticalBufferBytes := 1
  warmBufferBytes := 9
  consumptionBytesPerSecond := 1
  prioritizeFirstAndLastPieces := true

theorem tailRequest_roundTrips : ∃ s' json plan,
    readySession.enter tailEnvironment tailRequest.api =
      some (s', some { code := .ok, output := .text json }) ∧
    PieceWindowPlan.make 10 6 8 3 1 9 1 = some (.ok plan) ∧
    decodeJSON TorrentStreamingWindow.decode json = some (shownPlan tailRequest plan) := by
  obtain ⟨text, htext⟩ : ∃ text, metadataJson tailEnvironment 1 = some text :=
    Option.isSome_iff_exists.mp (by decide +kernel)
  have hgeometry : geometryOf text =
      some (TorrentGeometry.make (shownMetadata tailEnvironment 1 tailInfo)) := by
    unfold geometryOf
    rw [show TorrentMetadata.decodeJSON text = decodeJSON TorrentMetadata.decode text from rfl,
      decode_metadataJson rfl tailInfo_fits htext, Option.map_some]
  obtain ⟨-, hplanned⟩ := @window_roundTrips readySession tailEnvironment _ tailInfo text _
    tailRequest readySession_lookup rfl rfl tailInfo_fits htext hgeometry rfl (by decide)
    (by decide) (by decide) (by decide) (by decide +kernel)
  obtain ⟨s', json, file, plan, hcall, hfile, hmake, hdecode, -⟩ := hplanned (by decide +kernel)
  obtain rfl : file = ⟨10, 6⟩ := Option.some.inj (hfile.symm.trans (by decide +kernel))
  exact ⟨s', json, plan, hcall, hmake, hdecode⟩

/-- **Both views of the pieces agree.** For an active torrent with metadata, the list of truth
values that `pieces(for:)` returns and the bits that `pieceCompletion(for:)` returns are about the
same pieces and say the same of each. -/
theorem pieces_agree {s : Session} {env : Environment} {id : String} {value : Job}
    {info : TorrentInfo} (platform : Foundation) (hvalue : s.jobs.lookup id = some value)
    (hactive : value.stopped = false) (hinfo : env.torrentFile value.handle = some info)
    (hfits : Fits env value.handle info) (hcount : info.numPieces ≤ 2147483640)
    (hdeadlines : ∀ n ∈ value.deadlinePieces, Checked.Fits64 n) (hbuffer : env.malloc = true) :
    ∃ s₁ s₂ json count bytes snapshot completion,
      s.enter env (.pieces id) = some (s₁, some { code := .ok, output := .text json }) ∧
      s.enter env (.pieceCompletion id) = some (s₂, some
        { code := .ok, output := .bitset count bytes }) ∧
      decodeJSON TorrentPieceSnapshot.decode json = some snapshot ∧
      pieceCompletion platform count (nativeBuffer bytes) = .ok completion ∧
      completion.pieceCount = snapshot.completed.length ∧
      (∀ index : Int, completion.isComplete index =
        some (decide (0 ≤ index) && (snapshot.completed[index.toNat]?).getD false)) ∧
      snapshot.availability.length = snapshot.priorities.length ∧
      snapshot.priorities.length = (env.getPiecePriorities value.handle).length ∧
      ∀ piece, piece ∈ snapshot.deadlinePieceIndexes ↔ piece ∈ value.deadlinePieces := by
  obtain ⟨s₁, hpieces⟩ := pieces_answers hvalue hactive hinfo hbuffer
  obtain ⟨bytes, hloop, hlength, hbit⟩ := @completedPieces_spec (env.havePiece value.handle)
    info.numPieces hcount
  have hcompletion := completion_answers hvalue hactive hinfo hcount hloop
    (by rw [copyBuffer, hbuffer, Bool.or_true])
  have hround := @roundTrip_of_bits platform _ info.numPieces bytes hlength hbit
  refine ⟨s₁, s.setJob id value, _, _, bytes, _, _, ?_, ?_, decode_piecesJson hfits hdeadlines,
    hround.accepted, ?_, fun index => ?_, ?_, ?_, fun piece => Finset.mem_sort _⟩
  · show (s.ltkitSessionPieces env id).map Session.returning = _
    rw [hpieces]
    rfl
  · show (s.ltkitSessionPieceCompletion env id).map Session.returning = _
    rw [hcompletion]
    rfl
  · simp [shownPieces]
  · rw [hround.isComplete]
    by_cases hindex : index.toNat < info.numPieces
    · have hcast : index < info.numPieces := by omega
      simp [shownPieces, hindex, hcast]
    · have hout : ¬ (0 ≤ index ∧ index < info.numPieces) := by omega
      simp [shownPieces, hindex, hout]
  · simp [shownPieces]
  · simp [shownPieces]

/-- Two pieces, both of them complete. -/
theorem tailInfo_agree : ∃ s₁ s₂ json count bytes snapshot completion,
    readySession.enter tailEnvironment (.pieces "a") =
      some (s₁, some { code := .ok, output := .text json }) ∧
    readySession.enter tailEnvironment (.pieceCompletion "a") =
      some (s₂, some { code := .ok, output := .bitset count bytes }) ∧
    decodeJSON TorrentPieceSnapshot.decode json = some snapshot ∧
    pieceCompletion asciiFoundation count (nativeBuffer bytes) = .ok completion ∧
    completion.isComplete 1 = some ((snapshot.completed[1]?).getD false) := by
  obtain ⟨s₁, s₂, json, count, bytes, snapshot, completion, hpieces, hcompletion, hdecode, hok, -,
    hcomplete, -⟩ := @pieces_agree readySession tailEnvironment "a" _ tailInfo asciiFoundation
      readySession_lookup rfl rfl tailInfo_fits (by decide) (by decide) rfl
  exact ⟨s₁, s₂, json, count, bytes, snapshot, completion, hpieces, hcompletion, hdecode, hok,
    hcomplete 1⟩

end Swift

end LibtorrentKit
