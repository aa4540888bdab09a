/-
  File and piece selection: `apply_selection`, and what `ltkit_session_select_files`,
  `…_set_file_priority`, `…_set_piece_priority`, `…_update_streaming_window` and
  `…_clear_streaming_window` do to a job.

  None of them touches the checkpoint slot or the completion of the job: each stays within
  `Job.Selects` and asks libtorrent for nothing but tuning (`selectFiles_spec`, …).

  Piece indices and offsets are unbounded integers; a deadline is rounded down where the
  source rounds a `long double`.
-/
import LibtorrentKit.Session.State
import Mathlib.Data.Finset.Sort

namespace LibtorrentKit

/-! ## `apply_selection` -/

/-- The loop that gives each desired file the default priority; it stops at an index outside
    the torrent and leaves what it has set. -/
def fillDesired (count : Nat) : List Priority → List Int → List Priority × Bool
  | priorities, [] => (priorities, true)
  | priorities, index :: rest =>
      if index < 0 ∨ (count : Int) ≤ index then (priorities, false)
      else fillDesired count (priorities.set index.toNat defaultPriority) rest

/-- The loop over the pieces `first … last` of one file. -/
def raisePieces (priority : Priority) (first last : Int) (pieces : List Priority) :
    List Priority :=
  (List.range (last - first + 1).toNat).foldl
    (fun pieces k => pieces.modify (first + k).toNat (max priority)) pieces

/-- One file of the loop that derives piece priorities from file priorities. -/
def raiseFile (info : TorrentInfo) (filePriorities : List Priority) (pieces : List Priority)
    (file : FileEntry × Nat) : List Priority :=
  match filePriorities[file.2]? with
  | none => pieces
  | some priority =>
      if priority = dontDownload ∨ file.1.size = 0 then pieces
      else raisePieces priority (info.pieceIndexAtFile file.1) (info.lastPieceIndexAtFile file.1)
        pieces

def derivedPieces (info : TorrentInfo) (filePriorities : List Priority) : List Priority :=
  info.layout.zipIdx.foldl (raiseFile info filePriorities)
    (List.replicate info.numPieces dontDownload)

/-- The first half of `apply_selection`: the file priorities, and whether all desired files
    exist. -/
def selectedFiles (info : TorrentInfo) (value : Job) : List Priority × Bool :=
  let count := info.layout.length
  if value.filePriorities.length ≠ count then
    fillDesired count (List.replicate count dontDownload) value.desiredFiles
  else (value.filePriorities, true)

/-- The second half of `apply_selection`: the piece priorities. -/
def selectedPieces (info : TorrentInfo) (value : Job) (files : List Priority) : List Priority :=
  if value.piecePriorities.length ≠ info.numPieces then derivedPieces info files
  else value.piecePriorities

/-- `apply_selection`: the job, what it asks of libtorrent, and its result. -/
def applySelection (env : Environment) (value : Job) : Job × List Action × Bool :=
  match env.torrentFile value.handle with
  | none => (value, [], false)
  | some info =>
      match selectedFiles info value with
      | (files, false) => ({ value with filePriorities := files }, [], false)
      | (files, true) =>
          let pieces := selectedPieces info value files
          ({ value with filePriorities := files, piecePriorities := pieces, deadlinePieces := ∅ },
            [.command (.prioritizeFiles value.handle files),
              .command (.prioritizePieces value.handle pieces),
              .command (.clearPieceDeadlines value.handle)], true)

theorem applySelection_ok (env : Environment) (value : Job) {info : TorrentInfo}
    {files : List Priority} (hinfo : env.torrentFile value.handle = some info)
    (h : selectedFiles info value = (files, true)) :
    applySelection env value =
      ({ value with
          filePriorities := files
          piecePriorities := selectedPieces info value files
          deadlinePieces := ∅ },
        [.command (.prioritizeFiles value.handle files),
          .command (.prioritizePieces value.handle (selectedPieces info value files)),
          .command (.clearPieceDeadlines value.handle)], true) := by
  simp only [applySelection, hinfo, h]

theorem applySelection_failed (env : Environment) (value : Job) {info : TorrentInfo}
    {files : List Priority} (hinfo : env.torrentFile value.handle = some info)
    (h : selectedFiles info value = (files, false)) :
    applySelection env value = ({ value with filePriorities := files }, [], false) := by
  simp only [applySelection, hinfo, h]

/-! ## The calls that select -/

/-- How a call answers: with an output, or with a code and the text for `last_error`. -/
inductive Reply where
  | ok (output : Output)
  | fail (code : Code) (safeMessage : String)
  deriving DecidableEq, Repr

/-- The end of the two calls that select files: apply the selection or fail. -/
def applyOr (env : Environment) (value : Job) (code : Code) (safeMessage : String) :
    Job × List Action × Reply :=
  let (value, actions, ok) := applySelection env value
  (value, actions, if ok then .ok .none else .fail code safeMessage)

def selectFiles (env : Environment) (value : Job) (indexes : List Int) (primary : Int) :
    Job × List Action × Reply :=
  if value.completionCheckpoint || value.completionWaiting then
    (value, [], .fail .nativeFailure
      "The selected files cannot change during torrent completion.")
  else if (env.torrentFile value.handle).isNone then
    (value, [], .fail .metadataUnavailable "Torrent metadata is unavailable.")
  else
    let value := { value with
      desiredFiles := indexes, filePriorities := [], piecePriorities := [], primaryFile := primary }
    if 0 ≤ primary ∧ primary ∉ value.desiredFiles then
      (value, [], .fail .invalidFileIndex "The primary file must be selected.")
    else applyOr env value .invalidFileIndex "A requested file index is invalid."

/-- `priorities`, or libtorrent's own resized to `count` when there are not as many. -/
def fitted (priorities current : List Priority) (count : Nat) : List Priority :=
  if priorities.length ≠ count then
    current.take count ++ List.replicate (count - current.length) dontDownload
  else priorities

def setFilePriority (env : Environment) (value : Job) (fileIndex : Int) (priority : Priority) :
    Job × List Action × Reply :=
  if value.completionCheckpoint || value.completionWaiting then
    (value, [], .fail .nativeFailure
      "The selected files cannot change during torrent completion.")
  else
    match env.torrentFile value.handle with
    | none => (value, [], .fail .metadataUnavailable "Torrent metadata is unavailable.")
    | some info =>
        let count := info.layout.length
        if (count : Int) ≤ fileIndex then
          (value, [], .fail .invalidFileIndex "The file index is invalid.")
        else
          let files := (fitted value.filePriorities (env.getFilePriorities value.handle) count).set
            fileIndex.toNat priority
          let desired := (List.range count).filter fun index =>
            (files[index]?).any (· ≠ dontDownload)
          applyOr env { value with
              filePriorities := files
              desiredFiles := desired.map Int.ofNat
              piecePriorities := [] }
            .nativeFailure "The file priority could not be applied."

def setPiecePriority (env : Environment) (value : Job) (pieceIndex : Int) (priority : Priority) :
    Job × List Action × Reply :=
  match env.torrentFile value.handle with
  | none => (value, [], .fail .metadataUnavailable "Torrent metadata is unavailable.")
  | some info =>
      if (info.numPieces : Int) ≤ pieceIndex then
        (value, [], .fail .invalidPieceIndex "The piece index is invalid.")
      else
        let pieces := fitted value.piecePriorities (env.getPiecePriorities value.handle)
          info.numPieces
        ({ value with piecePriorities := pieces.set pieceIndex.toNat priority },
          [.command (.piecePriority value.handle pieceIndex priority)], .ok .none)

/-! ## The streaming window -/

/-- `std::clamp`. -/
def clamp (v lo hi : Int) : Int := if v < lo then lo else if hi < v then hi else v

/-- The integers `first … last`. -/
def indexRange (first last : Int) : List Int :=
  (List.range (last - first + 1).toNat).map fun k => first + k

def commaJoin (values : List String) : String := ",".intercalate values

/-- The pieces of the window: the first and last piece of the file, the piece at the
    playback position, and the last critical and warm pieces. -/
structure Window where
  fileFirst : Int
  fileLast : Int
  playback : Int
  criticalLast : Int
  warmLast : Int
  deriving DecidableEq, Repr

def streamingWindow (info : TorrentInfo) (file : FileEntry)
    (byteOffset criticalBytes warmBytes : Int) : Window :=
  let fileFirst := info.pieceIndexAtFile file
  let fileLast := info.lastPieceIndexAtFile file
  let pieceAt := fun offset => (file.offset + offset) / info.pieceLength
  let playback := clamp (pieceAt byteOffset) fileFirst fileLast
  let criticalEnd := byteOffset + min (file.size - 1 - byteOffset) (criticalBytes - 1)
  let warmEnd := byteOffset + min (file.size - 1 - byteOffset) (warmBytes - 1)
  let criticalLast := clamp (pieceAt criticalEnd) playback fileLast
  { fileFirst, fileLast, playback, criticalLast
    warmLast := clamp (pieceAt warmEnd) criticalLast fileLast }

/-- The deadline of one critical piece, in milliseconds. -/
def pieceDeadline (info : TorrentInfo) (file : FileEntry) (byteOffset rate piece : Int) : Int :=
  let pieceFileOffset := max (piece * info.pieceLength - file.offset) byteOffset
  min (100 + (pieceFileOffset - byteOffset) * 1000 / rate) 2147483647

def windowJson (fileIndex byteOffset : Int) (w : Window) : String :=
  "\x7b\"fileIndex\":" ++ toString fileIndex
    ++ ",\"requestedByteOffset\":" ++ toString byteOffset
    ++ ",\"firstPieceIndex\":" ++ toString w.playback
    ++ ",\"lastPieceIndex\":" ++ toString w.warmLast
    ++ ",\"playbackPieceIndex\":" ++ toString w.playback
    ++ ",\"prioritizedPieceIndexes\":["
    ++ commaJoin ((indexRange w.playback w.warmLast).map toString)
    ++ "],\"deadlinePieceIndexes\":["
    ++ commaJoin ((indexRange w.playback w.criticalLast).map toString) ++ "]\x7d"

def updateStreamingWindow (env : Environment) (value : Job) (fileIndex byteOffset criticalBytes
    warmBytes consumptionBytesPerSecond : Int) (prioritizeEdges : Bool) :
    Job × List Action × Reply :=
  match env.torrentFile value.handle with
  | none => (value, [], .fail .metadataUnavailable "Torrent metadata is unavailable.")
  | some info =>
      match info.layout[fileIndex.toNat]? with
      | none => (value, [], .fail .invalidFileIndex "The streaming file index is invalid.")
      | some file =>
          if fileIndex ∉ value.desiredFiles then
            (value, [], .fail .invalidFileIndex "The streaming file must be selected.")
          else if file.size ≤ 0 ∨ file.size ≤ byteOffset then
            (value, [], .fail .invalidOffset "The streaming byte offset is outside the file.")
          else
            let (value, actions, ok) := applySelection env value
            let actions := .command (.clearPieceDeadlines value.handle) :: actions
            if !ok then
              (value, actions, .fail .invalidFileIndex "A requested file index is invalid.")
            else
              let w := streamingWindow info file byteOffset criticalBytes warmBytes
              let edges : List (Int × Priority) :=
                if prioritizeEdges then
                  (w.fileFirst, topPriority) ::
                    (if w.fileLast ≠ w.fileFirst then [(w.fileLast, topPriority)] else [])
                else []
              let warm := (indexRange w.playback w.warmLast).map fun piece => (piece, 6)
              let critical := indexRange w.playback w.criticalLast
              let deadlines := critical.map fun piece =>
                Action.command (.setPieceDeadline value.handle piece
                  (pieceDeadline info file byteOffset consumptionBytesPerSecond piece))
              let raised := edges ++ warm ++ critical.map fun piece => (piece, topPriority)
              ({ value with deadlinePieces := critical.toFinset, primaryFile := fileIndex },
                actions ++ deadlines ++ [.command (.prioritizePieceList value.handle raised)],
                .ok (.text (windowJson fileIndex byteOffset w)))

def clearStreamingWindow (env : Environment) (value : Job) : Job × List Action × Reply :=
  let (value, actions, ok) := applySelection env { value with deadlinePieces := ∅ }
  let actions := .command (.clearPieceDeadlines value.handle) :: actions
  if !ok then (value, actions, .fail .metadataUnavailable "Torrent metadata is unavailable.")
  else (value, actions, .ok .none)

/-! ## What selection leaves alone -/

/-- A command that neither asks for a reply nor adds or removes a torrent. -/
def Command.isPlain : Command → Bool
  | .addTorrent _ _ | .removeTorrent _ _ | .flushCache _ | .saveResumeData _ => false
  | _ => true

/-- A job with another selection. -/
def Job.withSelection (value : Job) (desired : List Int) (files pieces : List Priority)
    (primary : Int) (ready : Bool) (deadlines : Finset Int) : Job :=
  { value with
    desiredFiles := desired
    filePriorities := files
    piecePriorities := pieces
    primaryFile := primary
    metadataReady := ready
    deadlinePieces := deadlines }

/-- What may change when files or pieces are selected: the selection itself, and the desired
    files only while no completion is under way. -/
def Job.Selects (value value' : Job) : Prop :=
  ∃ desired files pieces primary ready deadlines,
    value' = value.withSelection desired files pieces primary ready deadlines ∧
      (value.completionCheckpoint = true ∨ value.completionWaiting = true →
        desired = value.desiredFiles)

/-- The actions only tune a torrent. -/
def Tuning (actions : List Action) : Prop :=
  ∀ a ∈ actions, ∃ c, a = .command c ∧ c.isPlain = true

theorem Tuning.nil : Tuning [] := by
  intro a ha
  cases ha

theorem Tuning.cons {c : Command} {actions : List Action} (hc : c.isPlain = true)
    (h : Tuning actions) : Tuning (.command c :: actions) := by
  intro a ha
  rcases List.mem_cons.mp ha with rfl | ha
  · exact ⟨c, rfl, hc⟩
  · exact h a ha

/-- A command that sets priorities or deadlines. -/
def Command.isPriority : Command → Bool
  | .prioritizeFiles _ _ | .prioritizePieces _ _ | .prioritizePieceList _ _
  | .piecePriority _ _ _ | .setPieceDeadline _ _ _ | .clearPieceDeadlines _ => true
  | _ => false

/-- The actions only set priorities and deadlines. -/
def Prioritizing (actions : List Action) : Prop :=
  ∀ a ∈ actions, ∃ c, a = .command c ∧ c.isPriority = true

theorem Prioritizing.nil : Prioritizing [] := by
  intro a ha
  cases ha

theorem Prioritizing.cons {c : Command} {actions : List Action} (hc : c.isPriority = true)
    (h : Prioritizing actions) : Prioritizing (.command c :: actions) := by
  intro a ha
  rcases List.mem_cons.mp ha with rfl | ha
  · exact ⟨c, rfl, hc⟩
  · exact h a ha

theorem Prioritizing.append {xs ys : List Action} (hx : Prioritizing xs) (hy : Prioritizing ys) :
    Prioritizing (xs ++ ys) := by
  intro a ha
  rcases List.mem_append.mp ha with ha | ha
  · exact hx a ha
  · exact hy a ha

theorem Prioritizing.map {α : Type*} {f : α → Command} (hf : ∀ x, (f x).isPriority = true)
    (l : List α) : Prioritizing (l.map fun x => .command (f x)) := by
  intro a ha
  obtain ⟨x, _, rfl⟩ := List.mem_map.mp ha
  exact ⟨f x, rfl, hf x⟩

theorem Prioritizing.tuning {actions : List Action} (h : Prioritizing actions) :
    Tuning actions := by
  intro a ha
  obtain ⟨c, rfl, hc⟩ := h a ha
  refine ⟨c, rfl, ?_⟩
  cases c <;> first | rfl | cases hc

theorem Job.Selects.refl (value : Job) : value.Selects value :=
  ⟨_, _, _, _, _, _, rfl, fun _ => rfl⟩

theorem Job.Selects.trans {a b c : Job} (hab : a.Selects b) (hbc : b.Selects c) :
    a.Selects c := by
  obtain ⟨d, f, p, i, r, l, rfl, hd⟩ := hab
  obtain ⟨d', f', p', i', r', l', rfl, hd'⟩ := hbc
  exact ⟨d', f', p', i', r', l', rfl, fun h => (hd' h).trans (hd h)⟩

theorem applySelection_selects (env : Environment) (value : Job) :
    value.Selects (applySelection env value).1 := by
  unfold applySelection
  split
  · exact .refl value
  · split
    · exact ⟨_, _, _, _, _, _, rfl, fun _ => rfl⟩
    · exact ⟨_, _, _, _, _, _, rfl, fun _ => rfl⟩

theorem applySelection_prioritizing (env : Environment) (value : Job) :
    Prioritizing (applySelection env value).2.1 := by
  unfold applySelection
  split
  · exact .nil
  · split
    · exact .nil
    · exact .cons rfl (.cons rfl (.cons rfl .nil))

theorem applyOr_spec (env : Environment) (value : Job) (code : Code) (safeMessage : String) :
    value.Selects (applyOr env value code safeMessage).1 ∧
      Prioritizing (applyOr env value code safeMessage).2.1 :=
  ⟨applySelection_selects env value, applySelection_prioritizing env value⟩

/-- The desired files may be replaced while no completion is under way. -/
theorem Job.Selects.of_free {value : Job} (desired : List Int) (files pieces : List Priority)
    (primary : Int) (h : (value.completionCheckpoint || value.completionWaiting) = false) :
    value.Selects { value with
      desiredFiles := desired, filePriorities := files, piecePriorities := pieces
      primaryFile := primary } := by
  refine ⟨desired, files, pieces, primary, _, _, rfl, fun hc => ?_⟩
  rcases hc with hc | hc <;> simp [hc] at h

theorem selectFiles_spec (env : Environment) (value : Job) (indexes : List Int) (primary : Int) :
    value.Selects (selectFiles env value indexes primary).1 ∧
      Prioritizing (selectFiles env value indexes primary).2.1 := by
  unfold selectFiles
  split
  · exact ⟨.refl _, .nil⟩
  · next hfree =>
      have hset := Job.Selects.of_free indexes [] [] primary (Bool.eq_false_iff.mpr hfree)
      split
      · exact ⟨.refl _, .nil⟩
      · dsimp only
        split
        · exact ⟨hset, .nil⟩
        · exact (applyOr_spec env _ _ _).imp_left hset.trans

theorem setFilePriority_spec (env : Environment) (value : Job) (fileIndex : Int)
    (priority : Priority) :
    value.Selects (setFilePriority env value fileIndex priority).1 ∧
      Prioritizing (setFilePriority env value fileIndex priority).2.1 := by
  unfold setFilePriority
  split
  · exact ⟨.refl _, .nil⟩
  · next hfree =>
      have hset := fun d f => @Job.Selects.of_free value d f [] value.primaryFile
        (Bool.eq_false_iff.mpr hfree)
      split
      · exact ⟨.refl _, .nil⟩
      · dsimp only
        split
        · exact ⟨.refl _, .nil⟩
        · exact (applyOr_spec env _ _ _).imp_left (hset _ _).trans

theorem setPiecePriority_spec (env : Environment) (value : Job) (pieceIndex : Int)
    (priority : Priority) :
    value.Selects (setPiecePriority env value pieceIndex priority).1 ∧
      Prioritizing (setPiecePriority env value pieceIndex priority).2.1 := by
  unfold setPiecePriority
  split
  · exact ⟨.refl _, .nil⟩
  · split
    · exact ⟨.refl _, .nil⟩
    · exact ⟨⟨_, _, _, _, _, _, rfl, fun _ => rfl⟩, .cons rfl .nil⟩

theorem updateStreamingWindow_spec (env : Environment) (value : Job) (fileIndex byteOffset
    criticalBytes warmBytes rate : Int) (edges : Bool) :
    value.Selects (updateStreamingWindow env value fileIndex byteOffset criticalBytes warmBytes
        rate edges).1 ∧
      Prioritizing (updateStreamingWindow env value fileIndex byteOffset criticalBytes warmBytes
        rate edges).2.1 := by
  unfold updateStreamingWindow
  split
  · exact ⟨.refl _, .nil⟩
  · split
    · exact ⟨.refl _, .nil⟩
    · split
      · exact ⟨.refl _, .nil⟩
      · split
        · exact ⟨.refl _, .nil⟩
        · have hsel := applySelection_selects env value
          have htune := applySelection_prioritizing env value
          dsimp only
          split
          · exact ⟨hsel, .cons rfl htune⟩
          · refine ⟨hsel.trans ⟨_, _, _, _, _, _, rfl, fun _ => rfl⟩, ?_⟩
            exact ((Prioritizing.cons rfl htune).append (.map (fun _ => rfl) _)).append
              (.cons rfl .nil)

theorem clearStreamingWindow_spec (env : Environment) (value : Job) :
    value.Selects (clearStreamingWindow env value).1 ∧
      Prioritizing (clearStreamingWindow env value).2.1 := by
  have hclear : value.Selects { value with deadlinePieces := ∅ } :=
    ⟨_, _, _, _, _, _, rfl, fun _ => rfl⟩
  have hsel := hclear.trans (applySelection_selects env _)
  have htune := applySelection_prioritizing env { value with deadlinePieces := ∅ }
  unfold clearStreamingWindow
  dsimp only
  split
  · exact ⟨hsel, .cons rfl htune⟩
  · exact ⟨hsel, .cons rfl htune⟩

end LibtorrentKit
