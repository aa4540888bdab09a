/-
  The texts the native layer builds: `json_escape`, `state_name`, `status_json`,
  `safe_relative_path`, `metadata_json` and the payloads of the events; and
  `sync_selected_payloads` (`SelectedPayload.hpp`), which looks at the files on disk.

  A `std::string` is a `String`; a path is decomposed as POSIX `std::filesystem::path`
  does it.
-/
import LibtorrentKit.Engine

namespace LibtorrentKit

/-! ## Status -/

/-- One byte of `json_escape`; the bytes of a multi-byte character pass through. -/
def escapeChar (c : Char) : String :=
  if c = '"' then "\\\""
  else if c = '\\' then "\\\\"
  else if c = '\x08' then "\\b"
  else if c = '\x0c' then "\\f"
  else if c = '\n' then "\\n"
  else if c = '\r' then "\\r"
  else if c = '\t' then "\\t"
  else if c.toNat < 0x20 then "?"
  else String.singleton c

def jsonEscape (input : String) : String :=
  (input.toList.map escapeChar).foldl (· ++ ·) ""

def stateName (status : TorrentStatus) (stopped : Bool) : String :=
  if stopped then "stopped"
  else if status.paused then "paused"
  else
    match status.state with
    | .checkingFiles => "checkingFiles"
    | .downloadingMetadata => "downloadingMetadata"
    | .downloading => "downloading"
    | .finished => "finished"
    | .seeding => "seeding"
    | .checkingResumeData => "checkingResumeData"
    | .other => "unknown"

def boolText (b : Bool) : String := if b then "true" else "false"

/-- `digits` decimal digits of `n`, without trailing zeros. -/
def fraction : (digits : Nat) → (n : Nat) → String
  | 0, _ => ""
  | digits + 1, n =>
      if n % 10 ^ (digits + 1) = 0 then ""
      else toString (n / 10 ^ digits % 10) ++ fraction digits n

/-- `out << std::clamp(double(progress_ppm) / 1000000.0, 0.0, 1.0)`: six significant digits,
    in scientific form below `1e-4`. -/
def progressText (ppm : Int) : String :=
  let n := ppm.toNat
  if n = 0 then "0"
  else if 1000000 ≤ n then "1"
  else if 100 ≤ n then "0." ++ fraction 6 n
  else if 10 ≤ n then
    toString (n / 10) ++ (if n % 10 = 0 then "" else "." ++ toString (n % 10)) ++ "e-05"
  else toString n ++ "e-06"

def statusJson (status : TorrentStatus) (stopped : Bool := false) : String :=
  let paused := stopped || status.paused
  "\x7b\"state\":\"" ++ stateName status stopped ++ "\""
    ++ ",\"progress\":" ++ progressText status.progressPpm
    ++ ",\"totalBytes\":" ++ toString status.totalWanted
    ++ ",\"completedBytes\":" ++ toString status.totalWantedDone
    ++ ",\"downloadRate\":" ++ toString (if stopped then 0 else status.downloadPayloadRate)
    ++ ",\"uploadRate\":" ++ toString (if stopped then 0 else status.uploadPayloadRate)
    ++ ",\"connectedPeers\":" ++ toString (if stopped then 0 else status.numPeers)
    ++ ",\"isPaused\":" ++ boolText paused
    ++ ",\"hasMetadata\":" ++ boolText status.hasMetadata
    ++ ",\"isParticipatingInSwarm\":" ++ boolText (!stopped && !paused) ++ "\x7d"

/-! ## Paths -/

/-- Split at each `/`: always at least one part. -/
def splitSlash : List Char → List (List Char)
  | [] => [[]]
  | c :: cs =>
      match splitSlash cs with
      | [] => [[c]]
      | part :: parts => if c = '/' then [] :: part :: parts else (c :: part) :: parts

/-- The elements of a relative path, as iteration over `std::filesystem::path` yields them:
    consecutive separators count as one, a trailing one gives an empty element. -/
def pathElements (path : String) : List String :=
  let parts := (splitSlash path.toList).map String.ofList
  let names := parts.filter (· ≠ "")
  if parts.getLast? = some "" ∧ names ≠ [] then names ++ [""] else names

/-- The loop of `safe_relative_path` over the elements; `clean` is what it has built. -/
def cleanPath (clean : String) : List String → Option String
  | [] => some clean
  | element :: rest =>
      if element = ".." then none
      else if element = "." ∨ element = "" then cleanPath clean rest
      else cleanPath (if clean = "" then element else clean ++ "/" ++ element) rest

/-- `safe_relative_path`: its output when it returns true. -/
def safeRelativePath (file : FileEntry) : Option String :=
  if file.absolutePath then none
  else if file.path = "" ∨ file.path.toList.head? = some '/' then none
  else
    match cleanPath "" (pathElements file.path) with
    | none => none
    | some output => if output ≠ "" ∧ output.utf8ByteSize ≤ 4096 then some output else none

/-! ## Metadata -/

def hashText : Option String → String
  | some hash => "\"" ++ hash ++ "\""
  | none => "null"

/-- The entry of one file in `metadata_json`. -/
def fileJson (info : TorrentInfo) (priorities : List Priority) (progress : List Int)
    (index : Nat) (file : FileEntry) (path : String) : String :=
  let pieces :=
    if 0 < file.size then
      ",\"firstPieceIndex\":" ++ toString (info.pieceIndexAtFile file)
        ++ ",\"lastPieceIndex\":" ++ toString (info.lastPieceIndexAtFile file)
    else ",\"firstPieceIndex\":null,\"lastPieceIndex\":null"
  let selected := (priorities[index]?).any (· ≠ dontDownload)
  let complete := (progress[index]?).getD 0
  (if index = 0 then "" else ",")
    ++ "\x7b\"index\":" ++ toString index
    ++ ",\"path\":\"" ++ jsonEscape path ++ "\""
    ++ ",\"size\":" ++ toString file.size
    ++ ",\"torrentOffset\":" ++ toString file.offset
    ++ pieces
    ++ ",\"isSelected\":" ++ boolText selected
    ++ ",\"completedBytes\":" ++ toString complete ++ "\x7d"

/-- The loop over the files: `none` at the first unsafe path. -/
def filesJson (info : TorrentInfo) (priorities : List Priority) (progress : List Int) :
    (index : Nat) → List FileEntry → Option String
  | _, [] => some ""
  | index, file :: rest =>
      match safeRelativePath file with
      | none => none
      | some path =>
          (filesJson info priorities progress (index + 1) rest).map
            (fileJson info priorities progress index file path ++ ·)

/-- `metadata_json`: its text when it sets `safe`. -/
def metadataJson (env : Environment) (handle : Handle) : Option String :=
  match env.torrentFile handle with
  | none => none
  | some info =>
      (filesJson info (env.getFilePriorities handle) (env.fileProgress handle) 0
        info.layout).map fun files =>
        "\x7b\"name\":\"" ++ jsonEscape info.name ++ "\""
          ++ ",\"infoHashV1\":" ++ hashText info.infoHashes.v1
          ++ ",\"infoHashV2\":" ++ hashText info.infoHashes.v2
          ++ ",\"pieceLength\":" ++ toString info.pieceLength
          ++ ",\"pieceCount\":" ++ toString info.numPieces
          ++ ",\"totalBytes\":" ++ toString info.totalSize
          ++ ",\"creationDate\":"
          ++ (if 0 < info.creationDate then toString info.creationDate else "null")
          ++ ",\"creator\":"
          ++ (if info.creator = "" then "null" else "\"" ++ jsonEscape info.creator ++ "\"")
          ++ ",\"files\":[" ++ files ++ "]\x7d"

/-! ## Events -/

def metadataReadyJson (id : String) : String :=
  "\x7b\"kind\":\"metadataReady\",\"id\":\"" ++ id ++ "\"\x7d"

def invalidSelectionJson (id : String) : String :=
  "\x7b\"type\":\"event\",\"kind\":\"error\",\"id\":\"" ++ id
    ++ "\",\"code\":7,\"description\":\"A requested file index is invalid.\"\x7d"

/-- The rest of an error payload, behind the identifier. -/
def errorTail (code : String) (description : String) : String :=
  "\",\"code\":" ++ code ++ ",\"description\":\"" ++ description ++ "\"\x7d"

def errorJson (id code description : String) : String :=
  "\x7b\"kind\":\"error\",\"id\":\"" ++ (id ++ errorTail code description)

/-- The code-12 event of an engine error alert. -/
def recoverableErrorJson (id : String) : String :=
  errorJson id "12" "The torrent engine reported a recoverable error."

/-- Why a completion ends in a code-16 event. -/
inductive CompletionFailure where
  | checkpoint
  | payloads
  | metadata
  deriving DecidableEq, Repr

def CompletionFailure.description : CompletionFailure → String
  | .checkpoint => "Torrent completion failed: the final disk checkpoint did not succeed."
  | .payloads => "Torrent completion failed: one or more selected payload files are missing or incomplete after a disk checkpoint and refresh."
  | .metadata => "Torrent completion failed: selected-file metadata could not be refreshed."

/-- The code-16 event. -/
def completionFailedJson (id : String) (failure : CompletionFailure) : String :=
  errorJson id "16" failure.description

def completedJson (id : String) (status : TorrentStatus) : String :=
  "\x7b\"kind\":\"completed\",\"id\":\"" ++ id ++ "\",\"status\":" ++ statusJson status ++ "\x7d"

def stoppedAfterCompletionJson (id : String) : String :=
  "\x7b\"kind\":\"stoppedAfterCompletion\",\"id\":\"" ++ id ++ "\"\x7d"

def statusChangedJson (id : String) (status : TorrentStatus) (stopped : Bool) : String :=
  "\x7b\"kind\":\"statusChanged\",\"id\":\"" ++ id ++ "\",\"status\":"
    ++ statusJson status stopped ++ "\x7d"

/-- The code-12 and code-16 payloads of one identifier differ. -/
theorem recoverable_ne_completionFailed (id : String) (failure : CompletionFailure) :
    recoverableErrorJson id ≠ completionFailedJson id failure := by
  unfold recoverableErrorJson completionFailedJson errorJson
  intro h
  have h' := (String.append_right_inj _).mp ((String.append_right_inj _).mp h)
  revert h'
  cases failure <;> decide

/-! ## Files on disk -/

/-- `SelectedPayload`. -/
structure SelectedPayload where
  path : String
  size : Int
  deriving DecidableEq, Repr

/-- `std::filesystem::path(directory) / path`, for a relative path. -/
def joinPath (directory path : String) : String :=
  if directory = "" ∨ directory.toList.getLast? = some '/' then directory ++ path
  else directory ++ "/" ++ path

/-- One turn of the loop of `sync_selected_payloads`. -/
def syncPayload (disk : String → PayloadFile) (ready : Bool) (file : SelectedPayload) : Bool :=
  let f := disk file.path
  if !f.opens then false
  else
    let valid := f.fstatOk && f.regular && decide (file.size ≤ f.size)
    let ready := if !valid || !f.fsyncOk then false else ready
    if !f.closeOk then false else ready

def syncSelectedPayloads (disk : String → PayloadFile) (files : List SelectedPayload) : Bool :=
  if files.isEmpty then false else files.foldl (syncPayload disk) true

end LibtorrentKit
