/-
  libtorrent and the file system, as the native layer sees them.

  Nothing here is code of the repository. `Environment` is what libtorrent, the file system,
  the heap and the hash maps answer while one critical section runs, `Alert` what libtorrent
  reports, and `Command` what it is asked to do. Each critical section gets its own
  `Environment`, so the answers may change arbitrarily from one to the next. A handle stands
  for the torrent it refers to: equal handles are handles of one torrent.

  `Alert` carries, for a reply, the position in the session's trace of the request it
  answers. The code never reads it.
-/
import LibtorrentKit.Mailbox.EventMailbox

namespace LibtorrentKit

/-- The bytes of a buffer. -/
abbrev Bytes := List UInt8

/-- `lt::torrent_handle`. -/
abbrev Handle := Nat

/-- `lt::download_priority_t`. -/
abbrev Priority := Nat

def dontDownload : Priority := 0
def defaultPriority : Priority := 4
def topPriority : Priority := 7

/-- `lt::info_hash_t`, each hash in hexadecimal. -/
structure InfoHashes where
  v1 : Option String := none
  v2 : Option String := none
  deriving DecidableEq, Repr

/-- Two torrents are one for libtorrent when they agree on a hash. -/
def InfoHashes.matches (a b : InfoHashes) : Bool :=
  (a.v1.isSome && a.v1 == b.v1) || (a.v2.isSome && a.v2 == b.v2)

/-- One file of `lt::file_storage`. -/
structure FileEntry where
  path : String
  absolutePath : Bool := false
  size : Int
  offset : Int
  padFile : Bool := false
  deriving DecidableEq, Repr

/-- `lt::torrent_info`. -/
structure TorrentInfo where
  name : String
  infoHashes : InfoHashes
  pieceLength : Int
  numPieces : Nat
  totalSize : Int
  creationDate : Int := 0
  creator : String := ""
  layout : List FileEntry
  deriving DecidableEq, Repr

/-- `file_storage::piece_index_at_file`. -/
def TorrentInfo.pieceIndexAtFile (info : TorrentInfo) (file : FileEntry) : Int :=
  file.offset / info.pieceLength

/-- `file_storage::last_piece_index_at_file`. -/
def TorrentInfo.lastPieceIndexAtFile (info : TorrentInfo) (file : FileEntry) : Int :=
  (file.offset + file.size - 1) / info.pieceLength

/-- `lt::torrent_status::state_t`, as far as `state_name` tells the states apart. -/
inductive TorrentState where
  | checkingFiles
  | downloadingMetadata
  | downloading
  | finished
  | seeding
  | checkingResumeData
  | other
  deriving DecidableEq, Repr

/-- `lt::torrent_status`. -/
structure TorrentStatus where
  state : TorrentState := .downloading
  paused : Bool := false
  progressPpm : Int := 0
  totalWanted : Int := 0
  totalWantedDone : Int := 0
  downloadPayloadRate : Int := 0
  uploadPayloadRate : Int := 0
  numPeers : Int := 0
  hasMetadata : Bool := false
  isFinished : Bool := false
  savePath : String := ""
  deriving DecidableEq, Repr

/-- `lt::add_torrent_params`. -/
structure AddTorrentParams where
  infoHashes : InfoHashes := {}
  ti : Option TorrentInfo := none
  filePriorities : List Priority := []
  piecePriorities : List Priority := []
  savePath : String := ""
  paused : Bool := false
  defaultDontDownload : Bool := false
  downloadLimit : Int := 0
  uploadLimit : Int := 0
  deriving DecidableEq, Repr

/-- The hashes under which libtorrent files the torrent of `params`. -/
def AddTorrentParams.identity (params : AddTorrentParams) : InfoHashes :=
  match params.ti with
  | some info => info.infoHashes
  | none => params.infoHashes

/-- What `open`, `fstat`, `fsync` and `close` do for one path. -/
structure PayloadFile where
  opens : Bool
  fstatOk : Bool
  regular : Bool
  size : Int
  fsyncOk : Bool
  closeOk : Bool
  deriving DecidableEq, Repr

/-- What libtorrent, the file system, the heap and the hash maps answer during one critical
    section. -/
structure Environment where
  isValid : Handle → Bool
  torrentFile : Handle → Option TorrentInfo
  status : Handle → TorrentStatus
  fileProgress : Handle → List Int
  getFilePriorities : Handle → List Priority
  getPiecePriorities : Handle → List Priority
  pieceAvailability : Handle → List Int
  havePiece : Handle → Nat → Bool
  parseMagnetUri : Bytes → Option AddTorrentParams
  loadTorrentBuffer : Bytes → Option AddTorrentParams
  readResumeData : Bytes → Option AddTorrentParams
  addTorrent : AddTorrentParams → Option Handle
  disk : String → PayloadFile
  /-- `std::malloc` in `copy_buffer` succeeds. -/
  malloc : Bool
  alloc : Allocator
  /-- Iteration order of `ltkit_session::jobs`. -/
  jobsOrder : List String
  /-- Iteration order of `EventMailbox::jobs_`. -/
  mailboxOrder : List String

/-- The torrent alerts that the alert loop tells apart. `request` is the position in the
    trace of the request that a reply answers; `data` is the resume data of the reply, as
    `write_resume_data_buf` writes it. -/
inductive AlertKind where
  | metadataReceived
  | torrentFinished
  | cacheFlushed (request : Nat)
  | saveResumeData (request : Nat) (data : Bytes)
  | saveResumeDataFailed (request : Nat)
  | torrentError
  | fileError
  | stateChanged
  | other
  deriving DecidableEq, Repr

/-- A `lt::torrent_alert`. -/
structure Alert where
  handle : Handle
  kind : AlertKind
  deriving DecidableEq, Repr

/-- The request a reply answers. -/
def AlertKind.request : AlertKind → Option Nat
  | .cacheFlushed r => some r
  | .saveResumeData r _ => some r
  | .saveResumeDataFailed r => some r
  | _ => none

/-- `torrent_error_alert` or `file_error_alert`. -/
def AlertKind.isError : AlertKind → Bool
  | .torrentError => true
  | .fileError => true
  | _ => false

/-- A call into libtorrent that asks it to do something. -/
inductive Command where
  | addTorrent (params : AddTorrentParams) (handle : Handle)
  | removeTorrent (handle : Handle) (deleteFiles : Bool)
  | pause (handle : Handle)
  | resume (handle : Handle)
  | flushCache (handle : Handle)
  | saveResumeData (handle : Handle)
  | prioritizeFiles (handle : Handle) (priorities : List Priority)
  | prioritizePieces (handle : Handle) (priorities : List Priority)
  | prioritizePieceList (handle : Handle) (raised : List (Int × Priority))
  | piecePriority (handle : Handle) (piece : Int) (priority : Priority)
  | setPieceDeadline (handle : Handle) (piece : Int) (deadline : Int)
  | clearPieceDeadlines (handle : Handle)
  deriving DecidableEq, Repr

/-- A torrent with one file in one piece. -/
def sampleInfo : TorrentInfo where
  name := "n"
  infoHashes := { v1 := some "aa" }
  pieceLength := 16
  numPieces := 1
  totalSize := 10
  layout := [{ path := "f", size := 10, offset := 0 }]

/-- An environment in which everything succeeds: one complete torrent, whose next handle is
    `handle`. -/
def sampleEnvironment (handle : Handle := 1) : Environment where
  isValid _ := true
  torrentFile _ := some sampleInfo
  status _ := { totalWanted := 10, isFinished := true, savePath := "/d" }
  fileProgress _ := [10]
  getFilePriorities _ := [4]
  getPiecePriorities _ := [4]
  pieceAvailability _ := []
  havePiece _ _ := true
  parseMagnetUri _ := some { infoHashes := { v1 := some "aa" } }
  loadTorrentBuffer _ := some { infoHashes := { v1 := some "aa" }, ti := some sampleInfo }
  readResumeData _ := none
  addTorrent _ := some handle
  disk _ := ⟨true, true, true, 10, true, true⟩
  malloc := true
  alloc := bumpAllocator
  jobsOrder := ["a", "b"]
  mailboxOrder := ["a", "b"]

end LibtorrentKit
