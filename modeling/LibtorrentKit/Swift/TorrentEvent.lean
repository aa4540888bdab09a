/-
  What the Swift layer makes of the text of an event: `TorrentEvent`, `NativeEventEnvelope`,
  `TorrentStatus`, `TorrentState` and `TorrentError`.

  The decoders are what the compiler derives from `Decodable`, as `JSONDecoder` runs them: a key
  is looked up, a key that is not declared is passed over, and a value of another type or out of
  the range of an integer type fails the whole decoding. A `Double` is the number itself, before
  rounding. `Foundation` holds what `TorrentError` asks of the texts of the platform.
-/
import LibtorrentKit.Lib.Json
import LibtorrentKit.Payload

namespace LibtorrentKit

namespace Swift

/-! ## Foundation -/

/-- `UUID`, as the number that its digits denote. -/
structure UUID where
  bits : BitVec 128
  deriving DecidableEq, Repr

/-- `n` more hexadecimal digits of `value`. -/
def hexDigits : (n : Nat) → (value : Nat) → List Char → Option (Nat × List Char)
  | 0, value, input => some (value, input)
  | _ + 1, _, [] => none
  | n + 1, value, c :: rest =>
      match Json.hexValue c with
      | some d => hexDigits n (16 * value + d) rest
      | none => none

/-- Groups of hexadecimal digits, with hyphens between them and nothing behind them. -/
def hexGroups : (group : Nat) → (groups : List Nat) → (value : Nat) → List Char → Option Nat
  | group, [], value, input =>
      match hexDigits group value input with
      | some (value, []) => some value
      | _ => none
  | group, next :: groups, value, input =>
      match hexDigits group value input with
      | some (value, '-' :: rest) => hexGroups next groups value rest
      | _ => none

/-- `UUID(uuidString:)`. -/
def UUID.ofUuidString (s : String) : Option UUID :=
  (hexGroups 8 [4, 4, 4, 12] 0 s.toList).map fun value => ⟨BitVec.ofNat 128 value⟩

/-- The text services of the platform. -/
structure Foundation where
  /-- The characters of a string; `prefix` takes of these. -/
  characters : String → List String
  localizedCaseInsensitiveContains : String → String → Bool
  /-- `CharacterSet.controlCharacters`. -/
  controlCharacters : Char → Bool

/-! ## Errors -/

inductive Operation where
  | initialise | add | metadata | selection | priority | start | pause | status | pieces
  | streamingWindow | checkpoint | remove | shutdown | event
  deriving DecidableEq, Repr

/-- `TorrentError.Code`. -/
inductive ErrorCode where
  | unknown
  | invalidArgument
  | invalidSource
  | invalidIdentifier
  | duplicateIdentifier
  | metadataUnavailable
  | invalidFileIndex
  | invalidPieceIndex
  | invalidOffset
  | corruptResumeData
  | timedOut
  | nativeFailure
  | sessionShutDown
  | allocationLimit
  | pathViolation
  | completionFailed
  deriving DecidableEq, Repr

/-- `Code(native:)`. -/
def ErrorCode.ofNative (native : Int) : ErrorCode :=
  match native with
  | 2 => .invalidArgument
  | 3 => .invalidSource
  | 4 => .invalidIdentifier
  | 5 => .duplicateIdentifier
  | 6 => .metadataUnavailable
  | 7 => .invalidFileIndex
  | 8 => .invalidPieceIndex
  | 9 => .invalidOffset
  | 10 => .corruptResumeData
  | 11 => .timedOut
  | 12 => .nativeFailure
  | 13 => .sessionShutDown
  | 14 => .allocationLimit
  | 15 => .pathViolation
  | 16 => .completionFailed
  | _ => .unknown

structure TorrentError where
  operation : Operation
  code : ErrorCode
  category : String
  description : String
  deriving DecidableEq, Repr

namespace TorrentError

/-- The markers that a diagnostic must not contain. -/
def patterns : List String := ["magnet:?", "http://", "https://", "udp://", "peer=", "passkey="]

def sanitize (platform : Foundation) (input : String) : String :=
  let limited := String.join ((platform.characters input).take 512)
  if patterns.any fun pattern => platform.localizedCaseInsensitiveContains limited pattern then
    "Sensitive diagnostic details were removed."
  else
    String.ofList (limited.toList.filter fun c => !platform.controlCharacters c || c == '\n')

/-- `TorrentError.init`. -/
def make (platform : Foundation) (operation : Operation) (code : ErrorCode) (category : String)
    (description : String) : TorrentError :=
  { operation
    code
    category := sanitize platform category
    description := sanitize platform description }

def native (platform : Foundation) (operation : Operation) (code : Int)
    (description : Option String) : TorrentError :=
  make platform operation (.ofNative code) "LibtorrentNative"
    (description.getD "The native operation failed.")

end TorrentError

/-! ## Status and events -/

inductive TorrentState where
  | checkingFiles
  | downloadingMetadata
  | downloading
  | finished
  | seeding
  | allocating
  | checkingResumeData
  | paused
  | stopped
  | unknown
  deriving DecidableEq, Repr

/-- `TorrentState(rawValue:)`. -/
def TorrentState.ofRawValue (rawValue : String) : Option TorrentState :=
  match rawValue with
  | "checkingFiles" => some .checkingFiles
  | "downloadingMetadata" => some .downloadingMetadata
  | "downloading" => some .downloading
  | "finished" => some .finished
  | "seeding" => some .seeding
  | "allocating" => some .allocating
  | "checkingResumeData" => some .checkingResumeData
  | "paused" => some .paused
  | "stopped" => some .stopped
  | "unknown" => some .unknown
  | _ => none

structure TorrentStatus where
  state : TorrentState
  progress : ℚ
  totalBytes : Int
  completedBytes : Int
  downloadRate : Int
  uploadRate : Int
  connectedPeers : Int
  isPaused : Bool
  hasMetadata : Bool
  isParticipatingInSwarm : Bool
  deriving DecidableEq

inductive TorrentEvent where
  | metadataReady (id : UUID)
  | statusChanged (id : UUID) (status : TorrentStatus)
  | pieceCompleted (id : UUID) (pieceIndex : Int)
  | completed (id : UUID) (finalStatus : TorrentStatus)
  | stoppedAfterCompletion (id : UUID)
  | error (id : Option UUID) (error : TorrentError)
  deriving DecidableEq

/-! ## Decoding -/

def decodeString : Json.Value → Option String
  | .string s => some s
  | _ => none

def decodeBool : Json.Value → Option Bool
  | .bool b => some b
  | _ => none

def decodeDouble : Json.Value → Option ℚ
  | .number q => some q
  | _ => none

/-- A signed integer of the given width. -/
def decodeInteger (width : Nat) : Json.Value → Option Int
  | .number q =>
      if q.den = 1 ∧ -2 ^ (width - 1) ≤ q.num ∧ q.num < 2 ^ (width - 1) then some q.num else none
  | _ => none

def decodeUUID (v : Json.Value) : Option UUID := (decodeString v).bind UUID.ofUuidString

def decodeState (v : Json.Value) : Option TorrentState :=
  (decodeString v).bind TorrentState.ofRawValue

/-- `decode(_:forKey:)`. -/
def decodeKey {α : Type} (members : List (String × Json.Value)) (read : Json.Value → Option α)
    (key : String) : Option α :=
  (members.lookup key).bind read

/-- `decodeIfPresent(_:forKey:)`. -/
def decodeIfPresent {α : Type} (members : List (String × Json.Value))
    (read : Json.Value → Option α) (key : String) : Option (Option α) :=
  match members.lookup key with
  | none => some none
  | some .null => some none
  | some v => (read v).map some

def TorrentStatus.decode : Json.Value → Option TorrentStatus
  | .object members => do
      let state ← decodeKey members decodeState "state"
      let progress ← decodeKey members decodeDouble "progress"
      let totalBytes ← decodeKey members (decodeInteger 64) "totalBytes"
      let completedBytes ← decodeKey members (decodeInteger 64) "completedBytes"
      let downloadRate ← decodeKey members (decodeInteger 64) "downloadRate"
      let uploadRate ← decodeKey members (decodeInteger 64) "uploadRate"
      let connectedPeers ← decodeKey members (decodeInteger 64) "connectedPeers"
      let isPaused ← decodeKey members decodeBool "isPaused"
      let hasMetadata ← decodeKey members decodeBool "hasMetadata"
      let isParticipatingInSwarm ← decodeKey members decodeBool "isParticipatingInSwarm"
      pure { state, progress, totalBytes, completedBytes, downloadRate, uploadRate,
             connectedPeers, isPaused, hasMetadata, isParticipatingInSwarm }
  | _ => none

structure NativeEventEnvelope where
  kind : String
  id : Option UUID
  pieceIndex : Option Int
  status : Option TorrentStatus
  errorCode : Option Int
  errorDescription : Option String
  deriving DecidableEq

namespace NativeEventEnvelope

def decode : Json.Value → Option NativeEventEnvelope
  | .object members => do
      let kind ← decodeKey members decodeString "kind"
      let id ← decodeIfPresent members decodeUUID "id"
      let pieceIndex ← decodeIfPresent members (decodeInteger 64) "pieceIndex"
      let status ← decodeIfPresent members TorrentStatus.decode "status"
      let errorCode ← decodeIfPresent members (decodeInteger 32) "code"
      let errorDescription ← decodeIfPresent members decodeString "description"
      pure { kind, id, pieceIndex, status, errorCode, errorDescription }
  | _ => none

def event (platform : Foundation) (envelope : NativeEventEnvelope) : Option TorrentEvent :=
  match envelope.kind with
  | "metadataReady" => envelope.id.map .metadataReady
  | "statusChanged" => envelope.id.bind fun id => envelope.status.map (.statusChanged id)
  | "pieceCompleted" => envelope.id.bind fun id => envelope.pieceIndex.map (.pieceCompleted id)
  | "completed" => envelope.id.bind fun id => envelope.status.map (.completed id)
  | "stoppedAfterCompletion" => envelope.id.map .stoppedAfterCompletion
  | "error" =>
      some (.error envelope.id
        (.native platform .event (envelope.errorCode.getD 1) envelope.errorDescription))
  | _ => none

end NativeEventEnvelope

/-- What `NativeEventReader.next` makes of the text that it has read, if it can decode it. -/
def decodeEvent (platform : Foundation) (text : String) : Option TorrentEvent :=
  ((Json.parse text).bind NativeEventEnvelope.decode).bind (·.event platform)

end Swift

end LibtorrentKit
