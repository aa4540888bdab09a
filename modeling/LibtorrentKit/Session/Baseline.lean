/-
  The piece priorities that `apply_selection` derives from file priorities.

  The loops over files and pieces raise the entries of a list that starts at `dont_download`
  (`derivedPieces_eq`); a file raises exactly the pieces that hold a byte of it
  (`mem_pieceRaises`), all of them pieces of the torrent (`pieceRaises_lt`). So each piece gets
  the greatest priority of the files it has a byte of (`applySelection_baseline`).
-/
import LibtorrentKit.Lib.Blocks
import LibtorrentKit.Lib.Raise
import LibtorrentKit.Session.Pieces
import Mathlib.Algebra.Order.BigOperators.Group.List
import Mathlib.Algebra.Ring.Int.Defs

namespace LibtorrentKit

/-! ## Layouts -/

/-- The bytes of all files. -/
def layoutSize (layout : List FileEntry) : Int := (layout.map FileEntry.size).sum

/-- The files of a torrent lie one after the other, and its pieces cover them. -/
structure TorrentInfo.Contiguous (info : TorrentInfo) : Prop where
  length : 0 < info.pieceLength
  size : ∀ file ∈ info.layout, 0 ≤ file.size
  offset : ∀ i file, info.layout[i]? = some file → file.offset = layoutSize (info.layout.take i)
  total : info.totalSize = layoutSize info.layout
  pieces : (info.numPieces : Int) = (info.totalSize + info.pieceLength - 1) / info.pieceLength

/-- Piece `p` holds a byte of the file; an empty file has none. -/
def TorrentInfo.Overlaps (info : TorrentInfo) (file : FileEntry) (p : Int) : Prop :=
  ∃ byte, file.offset ≤ byte ∧ byte < file.offset + file.size ∧ byte / info.pieceLength = p

/-- The priorities of the files that piece `p` holds a byte of. -/
def TorrentInfo.prioritiesAt (info : TorrentInfo) (files : List Priority) (p : Int) :
    Set Priority :=
  {a | ∃ (i : Nat) (file : FileEntry),
    info.layout[i]? = some file ∧ files[i]? = some a ∧ info.Overlaps file p}

theorem layoutSize_nonneg {layout : List FileEntry} (h : ∀ file ∈ layout, 0 ≤ file.size) :
    0 ≤ layoutSize layout := by
  apply List.sum_nonneg
  intro size hsize
  obtain ⟨file, hfile, rfl⟩ := List.mem_map.mp hsize
  exact h file hfile

namespace TorrentInfo.Contiguous

variable {info : TorrentInfo} {i : Nat} {file : FileEntry}

theorem offset_nonneg (h : info.Contiguous) (hfile : info.layout[i]? = some file) :
    0 ≤ file.offset := by
  rw [h.offset i file hfile]
  exact layoutSize_nonneg fun f hf => h.size f (List.mem_of_mem_take hf)

/-- A file ends where the next one begins, at the latest at the end of the torrent. -/
theorem end_le (h : info.Contiguous) (hfile : info.layout[i]? = some file) :
    file.offset + file.size ≤ info.totalSize := by
  obtain ⟨hi, hget⟩ := List.getElem?_eq_some_iff.mp hfile
  have hsplit : layoutSize info.layout = layoutSize (info.layout.take i) + file.size
      + layoutSize (info.layout.drop (i + 1)) := by
    conv_lhs => rw [← List.take_append_drop i info.layout, List.drop_eq_getElem_cons hi, hget]
    simp only [layoutSize, List.map_append, List.sum_append, List.map_cons, List.sum_cons]
    omega
  have hrest : 0 ≤ layoutSize (info.layout.drop (i + 1)) :=
    layoutSize_nonneg fun f hf => h.size f (List.mem_of_mem_drop hf)
  rw [h.total, hsplit, h.offset i file hfile]
  omega

/-- A piece that holds a byte of the torrent is one of its pieces. -/
theorem piece_bounds (h : info.Contiguous) {byte : Int} (h0 : 0 ≤ byte)
    (h1 : byte < info.totalSize) :
    0 ≤ byte / info.pieceLength ∧ byte / info.pieceLength < info.numPieces := by
  have hlength := h.length
  refine ⟨Int.ediv_nonneg h0 hlength.le, ?_⟩
  rw [h.pieces]
  apply Int.lt_of_add_one_le
  rw [show info.totalSize + info.pieceLength - 1 = info.totalSize - 1 + 1 * info.pieceLength by
    omega, Int.add_mul_ediv_right _ _ hlength.ne']
  have hmono := Blocks.div_mono hlength (show byte ≤ info.totalSize - 1 by omega)
  omega

theorem overlaps_bounds (h : info.Contiguous) (hfile : info.layout[i]? = some file) {p : Int}
    (hp : info.Overlaps file p) : 0 ≤ p ∧ p < info.numPieces := by
  obtain ⟨byte, h0, h1, rfl⟩ := hp
  have hoffset := h.offset_nonneg hfile
  have hend := h.end_le hfile
  exact h.piece_bounds (by omega) (by omega)

/-- The loop over the pieces of a non-empty file runs over the pieces that hold a byte of it. -/
theorem mem_indexRange_iff (h : info.Contiguous) (hsize : 0 < file.size) {p : Int} :
    p ∈ indexRange (info.pieceIndexAtFile file) (info.lastPieceIndexAtFile file) ↔
      info.Overlaps file p := by
  rw [mem_indexRange]
  unfold TorrentInfo.pieceIndexAtFile TorrentInfo.lastPieceIndexAtFile TorrentInfo.Overlaps
  rw [Blocks.mem_blocks_iff h.length (by omega)]
  apply exists_congr
  intro byte
  constructor
  · intro hbyte
    exact ⟨hbyte.1, by omega, hbyte.2.2⟩
  · intro hbyte
    exact ⟨hbyte.1, by omega, hbyte.2.2⟩

end TorrentInfo.Contiguous

/-! ## The accesses of the loops -/

/-- The raises of the loop over the pieces of one file. -/
def fileRaises (info : TorrentInfo) (files : List Priority) (file : FileEntry × Nat) :
    List (Int × Priority) :=
  match files[file.2]? with
  | none => []
  | some priority =>
      if priority = dontDownload ∨ file.1.size = 0 then []
      else (indexRange (info.pieceIndexAtFile file.1) (info.lastPieceIndexAtFile file.1)).map
        fun piece => (piece, priority)

/-- The entries of `piece_priorities` that `apply_selection` accesses, each with the priority it
    is raised to, in their order. -/
def pieceRaises (info : TorrentInfo) (files : List Priority) : List (Int × Priority) :=
  info.layout.zipIdx.flatMap (fileRaises info files)

/-- An access as a position of the list. -/
def atEntry (access : Int × Priority) : Nat × Priority := (access.1.toNat, access.2)

theorem raisePieces_eq (priority : Priority) (first last : Int) (pieces : List Priority) :
    raisePieces priority first last pieces =
      raiseAll pieces
        (((indexRange first last).map fun piece => (piece, priority)).map atEntry) := by
  unfold raisePieces indexRange
  generalize (do let a ← List.range (last - first + 1).toNat; pure (a : Int)) = ks
  simp only [raiseAll, List.foldl_map]
  rfl

theorem raiseFile_eq (info : TorrentInfo) (files pieces : List Priority) (file : FileEntry × Nat) :
    raiseFile info files pieces file =
      raiseAll pieces ((fileRaises info files file).map atEntry) := by
  unfold raiseFile fileRaises
  rcases files[file.2]? with _ | priority
  · rfl
  · dsimp only
    split
    · rfl
    · exact raisePieces_eq ..

/-- The loops only raise: `derivedPieces` is the list of accesses applied in order. -/
theorem derivedPieces_eq (info : TorrentInfo) (files : List Priority) :
    derivedPieces info files =
      raiseAll (List.replicate info.numPieces dontDownload)
        ((pieceRaises info files).map atEntry) := by
  unfold derivedPieces pieceRaises
  generalize List.replicate info.numPieces dontDownload = pieces
  induction info.layout.zipIdx generalizing pieces with
  | nil => rfl
  | cons file l ih =>
      rw [List.foldl_cons, ih, raiseFile_eq, List.flatMap_cons, List.map_append, raiseAll_append]

/-- A file raises the pieces that hold a byte of it, unless it is not wanted. -/
theorem mem_pieceRaises {info : TorrentInfo} (h : info.Contiguous) {files : List Priority}
    {p : Int} {a : Priority} :
    (p, a) ∈ pieceRaises info files ↔ a ≠ dontDownload ∧ a ∈ info.prioritiesAt files p := by
  unfold pieceRaises
  rw [List.mem_flatMap]
  constructor
  · rintro ⟨⟨file, i⟩, hmem, hraise⟩
    have hfile : info.layout[i]? = some file := List.mem_zipIdx_iff_getElem?.mp hmem
    unfold fileRaises at hraise
    dsimp only at hraise
    split at hraise
    · cases hraise
    · next priority hpriority =>
        split at hraise
        · cases hraise
        · next hwanted =>
            obtain ⟨q, hq, hpair⟩ := List.mem_map.mp hraise
            obtain ⟨rfl, rfl⟩ := Prod.ext_iff.mp hpair
            have hsize : 0 ≤ file.size := h.size file (List.mem_of_getElem? hfile)
            have hoverlaps := (h.mem_indexRange_iff (by omega)).mp hq
            exact ⟨by tauto, i, file, hfile, hpriority, hoverlaps⟩
  · rintro ⟨hwanted, i, file, hfile, hpriority, hoverlaps⟩
    refine ⟨(file, i), List.mem_zipIdx_iff_getElem?.mpr hfile, ?_⟩
    have hsize : 0 < file.size := by
      obtain ⟨byte, h0, h1, _⟩ := hoverlaps
      omega
    unfold fileRaises
    dsimp only
    rw [hpriority]
    dsimp only
    rw [if_neg (by rw [not_or]; exact ⟨hwanted, hsize.ne'⟩)]
    exact List.mem_map.mpr ⟨p, (h.mem_indexRange_iff hsize).mpr hoverlaps, rfl⟩

/-- No access is out of range. -/
theorem pieceRaises_lt {info : TorrentInfo} (h : info.Contiguous) {files : List Priority} :
    ∀ access ∈ pieceRaises info files, 0 ≤ access.1 ∧ access.1 < info.numPieces := by
  intro access haccess
  obtain ⟨_, _, _, hfile, _, hoverlaps⟩ := (mem_pieceRaises h).mp haccess
  exact h.overlaps_bounds hfile hoverlaps

/-- What raises piece `p`, as a set: the priorities there other than `dont_download`. -/
theorem raisesAt_pieceRaises {info : TorrentInfo} (h : info.Contiguous) {files : List Priority}
    (p : Nat) :
    insert dontDownload {a | a ∈ raisesAt ((pieceRaises info files).map atEntry) p} =
      insert dontDownload (info.prioritiesAt files p) := by
  apply Set.ext
  intro a
  have hmem : a ∈ raisesAt ((pieceRaises info files).map atEntry) p ↔
      ((p : Int), a) ∈ pieceRaises info files := by
    rw [mem_raisesAt, List.mem_map]
    constructor
    · rintro ⟨⟨q, b⟩, hq, hpair⟩
      have hbounds := pieceRaises_lt h _ hq
      obtain ⟨hqp, rfl⟩ := Prod.ext_iff.mp hpair
      have hqp' : q = p := by
        have : q.toNat = p := hqp
        have : 0 ≤ q := hbounds.1
        omega
      rw [← hqp']
      exact hq
    · intro hq
      exact ⟨_, hq, rfl⟩
  show a = dontDownload ∨ a ∈ raisesAt _ p ↔ a = dontDownload ∨ a ∈ info.prioritiesAt files p
  rw [hmem, mem_pieceRaises h]
  tauto

/-- Each entry is the greatest priority of the files that its piece holds a byte of. -/
theorem derivedPieces_greatest {info : TorrentInfo} (h : info.Contiguous) (files : List Priority)
    {p : Nat} (hp : p < info.numPieces) :
    ∃ a, (derivedPieces info files)[p]? = some a ∧
      IsGreatest (insert dontDownload (info.prioritiesAt files p)) a := by
  rw [derivedPieces_eq, raiseAll_getElem?, List.getElem?_replicate, if_pos hp]
  refine ⟨_, rfl, ?_⟩
  rw [← raisesAt_pieceRaises h]
  exact isGreatest_foldr_max ..

/-! ## `apply_selection` -/

/-- Piece priorities are derived when there are none, or not as many as the torrent has
    pieces. -/
theorem selectedPieces_derived {info : TorrentInfo} {value : Job} (files : List Priority)
    (h : value.piecePriorities = [] ∨ value.piecePriorities.length ≠ info.numPieces) :
    selectedPieces info value files = derivedPieces info files := by
  unfold selectedPieces
  split
  · rfl
  · next hlength =>
      -- a torrent without pieces
      have hnil : value.piecePriorities = [] := h.resolve_right hlength
      have hderived := derivedPieces_length info files
      rw [← not_not.mp hlength, hnil] at hderived
      rw [hnil, List.eq_nil_of_length_eq_zero hderived]

/-- A job whose file priorities fit the torrent keeps them. -/
theorem applySelection_pieces {env : Environment} {info : TorrentInfo} {value : Job}
    (hinfo : env.torrentFile value.handle = some info)
    (hfiles : value.filePriorities.length = info.layout.length)
    (hpieces : value.piecePriorities = [] ∨ value.piecePriorities.length ≠ info.numPieces) :
    (applySelection env value).1.piecePriorities = derivedPieces info value.filePriorities := by
  have hselected : selectedFiles info value = (value.filePriorities, true) :=
    if_neg (not_not.mpr hfiles)
  rw [applySelection_ok env value hinfo hselected]
  exact selectedPieces_derived _ hpieces

/-- `apply_selection` builds one priority for each piece, the greatest of the files that the
    piece holds a byte of, and accesses no entry that is not there. A piece is wanted exactly
    when it holds a byte of a wanted file. -/
theorem applySelection_baseline {env : Environment} {info : TorrentInfo} {value : Job}
    (hlayout : info.Contiguous) (hinfo : env.torrentFile value.handle = some info)
    (hfiles : value.filePriorities.length = info.layout.length)
    (hpieces : value.piecePriorities = [] ∨ value.piecePriorities.length ≠ info.numPieces) :
    (applySelection env value).1.piecePriorities.length = info.numPieces ∧
    (applySelection env value).1.piecePriorities =
      raiseAll (List.replicate info.numPieces dontDownload)
        ((pieceRaises info value.filePriorities).map atEntry) ∧
    (∀ access ∈ pieceRaises info value.filePriorities,
      0 ≤ access.1 ∧ access.1 < info.numPieces) ∧
    ∀ p < info.numPieces, ∃ a, (applySelection env value).1.piecePriorities[p]? = some a ∧
      IsGreatest (insert dontDownload (info.prioritiesAt value.filePriorities p)) a ∧
      (a ≠ dontDownload ↔ ∃ b ∈ info.prioritiesAt value.filePriorities p, b ≠ dontDownload) := by
  rw [applySelection_pieces hinfo hfiles hpieces]
  refine ⟨derivedPieces_length .., derivedPieces_eq .., pieceRaises_lt hlayout, fun p hp => ?_⟩
  obtain ⟨a, ha, hgreatest⟩ := derivedPieces_greatest hlayout value.filePriorities hp
  refine ⟨a, ha, hgreatest, ?_, ?_⟩
  · intro hwanted
    exact ⟨a, hgreatest.1.resolve_left hwanted, hwanted⟩
  · rintro ⟨b, hb, hwanted⟩ rfl
    have hle : b ≤ dontDownload := hgreatest.2 (Or.inr hb)
    exact hwanted (Nat.le_zero.mp hle)

/-- Two pieces: an unwanted file, an empty one at the border, and a wanted file that reaches
    back into the first piece. -/
def sharedInfo : TorrentInfo :=
  { sampleInfo with
    numPieces := 2
    totalSize := 24
    layout := [{ path := "f", size := 10, offset := 0 }, { path := "g", size := 0, offset := 10 },
      { path := "h", size := 14, offset := 10 }] }

def sharedJob : Job where
  handle := 1
  desiredFiles := [1, 2]
  filePriorities := [0, 7, 4]

theorem sharedInfo_contiguous : sharedInfo.Contiguous where
  length := by decide
  size := by decide
  offset := by
    intro i file hfile
    match i with
    | 0 | 1 | 2 => obtain rfl := Option.some.inj hfile; rfl
    | i + 3 => cases hfile
  total := rfl
  pieces := rfl

theorem sharedJob_baseline :
    (applySelection { sampleEnvironment with torrentFile := fun _ => some sharedInfo }
      sharedJob).1.piecePriorities = [4, 4] ∧
    ∃ a, [4, 4][0]? = some a ∧
      IsGreatest (insert dontDownload (sharedInfo.prioritiesAt [0, 7, 4] 0)) a := by
  have hpieces : (applySelection { sampleEnvironment with torrentFile := fun _ => some sharedInfo }
      sharedJob).1.piecePriorities = [4, 4] := by decide +kernel
  obtain ⟨_, _, _, hentries⟩ := @applySelection_baseline
    { sampleEnvironment with torrentFile := fun _ => some sharedInfo } sharedInfo sharedJob
    sharedInfo_contiguous rfl rfl (Or.inl rfl)
  obtain ⟨a, ha, hgreatest, _⟩ := hentries 0 (by decide)
  rw [hpieces] at ha
  exact ⟨hpieces, a, ha, hgreatest⟩

end LibtorrentKit
