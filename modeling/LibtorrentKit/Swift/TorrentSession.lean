/-
  The `TorrentSession` actor: `identifiers` and `geometry`, and the calls that keep them.

  A method of the actor runs up to its `await`, and from there on once its result has come back.
  In between the actor runs other methods, and results come back in any order: `resume x` may
  happen as soon as the operation `x` has an outcome. `updateStreamingWindow` without a cached
  geometry is two operations, the first one a call of `metadata(for:)`.

  An identifier is the `uuidString` that the native layer gets. A call that throws before it
  reaches `perform` is no step.
-/
import LibtorrentKit.Session.Identifiers
import LibtorrentKit.Swift.Executor
import LibtorrentKit.Swift.TorrentEvent
import LibtorrentKit.Swift.WindowPlan

namespace LibtorrentKit

namespace Swift

/-! ## Metadata -/

structure TorrentFileInfo where
  index : Int
  path : String
  size : Int
  torrentOffset : Int
  firstPieceIndex : Option Int
  lastPieceIndex : Option Int
  isSelected : Bool
  completedBytes : Int
  deriving DecidableEq, Repr

def TorrentFileInfo.decode : Json.Value → Option TorrentFileInfo
  | .object members => do
      let index ← decodeKey members (decodeInteger 64) "index"
      let path ← decodeKey members decodeString "path"
      let size ← decodeKey members (decodeInteger 64) "size"
      let torrentOffset ← decodeKey members (decodeInteger 64) "torrentOffset"
      let firstPieceIndex ← decodeIfPresent members (decodeInteger 64) "firstPieceIndex"
      let lastPieceIndex ← decodeIfPresent members (decodeInteger 64) "lastPieceIndex"
      let isSelected ← decodeKey members decodeBool "isSelected"
      let completedBytes ← decodeKey members (decodeInteger 64) "completedBytes"
      pure { index, path, size, torrentOffset, firstPieceIndex, lastPieceIndex, isSelected,
             completedBytes }
  | _ => none

def decodeArray {α : Type} (read : Json.Value → Option α) : Json.Value → Option (List α)
  | .array vs => vs.mapM read
  | _ => none

/-- `creationDate` is in seconds since 1970. -/
structure TorrentMetadata where
  name : String
  infoHashV1 : Option String
  infoHashV2 : Option String
  pieceLength : Int
  pieceCount : Int
  totalBytes : Int
  creationDate : Option ℚ
  creator : Option String
  files : List TorrentFileInfo
  deriving DecidableEq

namespace TorrentMetadata

def decode : Json.Value → Option TorrentMetadata
  | .object members => do
      let name ← decodeKey members decodeString "name"
      let infoHashV1 ← decodeIfPresent members decodeString "infoHashV1"
      let infoHashV2 ← decodeIfPresent members decodeString "infoHashV2"
      let pieceLength ← decodeKey members (decodeInteger 64) "pieceLength"
      let pieceCount ← decodeKey members (decodeInteger 64) "pieceCount"
      let totalBytes ← decodeKey members (decodeInteger 64) "totalBytes"
      let creationDate ← decodeIfPresent members decodeDouble "creationDate"
      let creator ← decodeIfPresent members decodeString "creator"
      let files ← decodeKey members (decodeArray TorrentFileInfo.decode) "files"
      pure { name, infoHashV1, infoHashV2, pieceLength, pieceCount, totalBytes, creationDate,
             creator, files }
  | _ => none

/-- `decodeJSON`, once the native call has succeeded. -/
def decodeJSON (json : String) : Option TorrentMetadata :=
  if json = "" then none else (Json.parse json).bind decode

end TorrentMetadata

/-- `TorrentGeometry.File`. -/
structure GeometryFile where
  offset : Int
  size : Int
  deriving DecidableEq, Repr

structure TorrentGeometry where
  pieceLength : Int
  files : List (Int × GeometryFile)
  deriving DecidableEq, Repr

/-- `TorrentGeometry.init`; the native layer numbers the files, so no index occurs twice. -/
def TorrentGeometry.make (metadata : TorrentMetadata) : TorrentGeometry where
  pieceLength := metadata.pieceLength
  files := metadata.files.map fun file => (file.index, ⟨file.torrentOffset, file.size⟩)

/-- The geometry in the answer of `ltkit_session_metadata`. -/
def geometryOf (json : String) : Option TorrentGeometry :=
  (TorrentMetadata.decodeJSON json).map TorrentGeometry.make

/-! ## Streaming windows -/

/-- The arguments of `updateStreamingWindow`. -/
structure WindowRequest where
  id : String
  fileIndex : Int
  byteOffset : Int
  criticalBufferBytes : Int
  warmBufferBytes : Int
  consumptionBytesPerSecond : Int
  prioritizeFirstAndLastPieces : Bool
  deriving DecidableEq, Repr

def WindowRequest.api (r : WindowRequest) : Api :=
  .updateStreamingWindow r.id r.fileIndex r.byteOffset r.criticalBufferBytes r.warmBufferBytes
    r.consumptionBytesPerSecond r.prioritizeFirstAndLastPieces

/-- The checks of `updateStreamingWindow` against the geometry: whether it goes on. -/
def TorrentGeometry.accepts (geometry : TorrentGeometry) (r : WindowRequest) : Bool :=
  match geometry.files.lookup r.fileIndex with
  | none => false
  | some file =>
      match PieceWindowPlan.make file.offset file.size geometry.pieceLength r.byteOffset
        r.criticalBufferBytes r.warmBufferBytes r.consumptionBytesPerSecond with
      | some (.ok _) => true
      | _ => false

/-- A call of `updateStreamingWindow` that asks for the metadata, and then has their geometry. -/
structure WindowCall where
  request : WindowRequest
  geometry : Option TorrentGeometry := none
  deriving DecidableEq, Repr

/-! ## The actor -/

/-- The semantics with which the methods of the actor call `perform`. -/
def semanticsOf : Api → Semantics
  | .add _ => .mutation
  | .selectFiles _ _ _ => .mutation
  | .setFilePriority _ _ _ => .mutation
  | .setPiecePriority _ _ _ => .mutation
  | .start _ => .mutation
  | .pause _ => .mutation
  | .updateStreamingWindow _ _ _ _ _ _ _ => .mutation
  | .clearStreamingWindow _ => .mutation
  | .remove _ _ => .mutation
  | _ => .cancellable

/-- What the outcome tells the method that has called `perform`. -/
def reported (op : Op) : Option Effect :=
  match op.outcome with
  | some (.result (.native response _)) => Effect.of op.api response
  | _ => none

structure TorrentSession where
  host : Host := {}
  identifiers : Finset String := ∅
  geometry : Finmap (fun _ : String => TorrentGeometry) := ∅
  windows : Finmap (fun _ : OpId => WindowCall) := ∅

namespace TorrentSession

inductive Step where
  /-- A method is called: its operation is `x`. -/
  | call (x : OpId) (api : Api)
  | updateStreamingWindow (x : OpId) (request : WindowRequest)
  /-- The result of `x` comes back, and the method goes on. -/
  | resume (x : OpId)
  /-- `updateStreamingWindow` goes on with the metadata that `x` has read, as `y`. -/
  | goOn (x y : OpId)
  /-- Anything outside the actor, and `shutdown()`. -/
  | host (l : Host.Step)

def ensureRunning (s : TorrentSession) : Bool := decide (s.host.shutdown = .idle)

def perform (s : TorrentSession) (x : OpId) (api : Api) : Option TorrentSession :=
  (s.host.step (.submit x .native (semanticsOf api) api)).map fun host => { s with host }

def isWindow : Api → Bool
  | .updateStreamingWindow _ _ _ _ _ _ _ => true
  | _ => false

/-- The methods other than `updateStreamingWindow`. -/
def call (s : TorrentSession) (x : OpId) (api : Api) : Option TorrentSession :=
  if !s.ensureRunning || isWindow api then none else s.perform x api

/-- The end of `updateStreamingWindow`, with the geometry at hand. -/
def plan (s : TorrentSession) (x : OpId) (geometry : TorrentGeometry) (r : WindowRequest) :
    Option TorrentSession :=
  if geometry.accepts r then s.perform x r.api else none

def updateStreamingWindow (s : TorrentSession) (x : OpId) (r : WindowRequest) :
    Option TorrentSession :=
  if ¬ (-2 ^ 31 ≤ r.fileIndex ∧ r.fileIndex < 2 ^ 31) then none
  else
    match s.geometry.lookup r.id with
    | some cached => s.plan x cached r
    | none =>
        (s.call x (.metadata r.id 30000)).map fun s =>
          { s with windows := s.windows.insert x { request := r } }

/-- What a method does when its operation has succeeded. -/
def note (s : TorrentSession) : Effect → TorrentSession
  | .added id => { s with identifiers := insert id s.identifiers }
  | .removed id =>
      { s with identifiers := s.identifiers.erase id, geometry := s.geometry.erase id }
  | .read id json =>
      match geometryOf json with
      | some geometry => { s with geometry := s.geometry.insert id geometry }
      | none => s

/-- `updateStreamingWindow` has its metadata, or throws what `metadata(for:)` has thrown. It
    writes the geometry once more, in the same turn of the actor. -/
def window (s : TorrentSession) (x : OpId) (effect : Option Effect) : TorrentSession :=
  match s.windows.lookup x with
  | none => s
  | some call =>
      match effect with
      | some (.read _ json) =>
          match geometryOf json with
          | some geometry =>
              { s with windows := s.windows.insert x { call with geometry := some geometry } }
          | none => { s with windows := s.windows.erase x }
      | _ => { s with windows := s.windows.erase x }

def resume (s : TorrentSession) (x : OpId) : Option TorrentSession :=
  (s.host.ops.lookup x).bind fun op =>
    (s.host.step (.returns x)).map fun host =>
      let s := { s with host }
      let s := (reported op).elim s s.note
      s.window x (reported op)

def goOn (s : TorrentSession) (x y : OpId) : Option TorrentSession :=
  match s.windows.lookup x with
  | some ⟨request, some geometry⟩ =>
      let s := { s with windows := s.windows.erase x }
      if geometry.accepts request then s.perform y request.api else some s
  | _ => none

/-- A step that is not one of the actor's methods. -/
def isOutside : Host.Step → Bool
  | .submit _ .native _ _ => false
  | .returns _ => false
  | _ => true

/-- `geometry.removeAll()`, between the two halves of `shutdown()`. -/
def removesAll (s : TorrentSession) : Host.Step → Bool
  | .wake .shutdown => decide (s.host.shutdown = .waking)
  | _ => false

def outside (s : TorrentSession) (l : Host.Step) : Option TorrentSession :=
  if isOutside l then
    (s.host.step l).map fun host =>
      { s with host, geometry := if s.removesAll l then ∅ else s.geometry }
  else none

/-- One part of a method, or a step of another thread; `none` when it cannot happen now. -/
def step (s : TorrentSession) : Step → Option TorrentSession
  | .call x api => s.call x api
  | .updateStreamingWindow x request => s.updateStreamingWindow x request
  | .resume x => s.resume x
  | .goOn x y => s.goOn x y
  | .host l => s.outside l

/-- The state after a run that goes through. -/
def after (ls : List Step) : TorrentSession := (Lts.exec step {} ls).getD {}

theorem exec_after {ls : List Step} (h : (Lts.exec step {} ls).isSome = true) :
    Lts.exec step {} ls = some (after ls) :=
  Lts.exec_getD h

end TorrentSession

end Swift

end LibtorrentKit
