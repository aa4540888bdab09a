/-
  `PieceWindowPlan.make` and the window arithmetic of `ltkit_session_update_streaming_window`.

  Both are written with arithmetic that has no result when a 64-bit integer, or a conversion to
  32 bits, overflows: Swift traps there, and C++ has no defined behaviour.

  `windows_agree`: for every file whose bytes fit in 63 bits and whose pieces fit in 32, the two
  accept the same requests, compute the same pieces without overflow, and these are exactly the
  pieces that the requested bytes lie in.
-/
import LibtorrentKit.Lib.Blocks
import LibtorrentKit.Lib.Checked
import LibtorrentKit.Session.Geometry
import LibtorrentKit.Session.Windows

namespace LibtorrentKit

open Checked

/-! ## Swift -/

/-- `PieceWindowPlan`. -/
structure PieceWindowPlan where
  firstPiece : Int
  criticalLastPiece : Int
  warmLastPiece : Int
  playbackPiece : Int
  deriving DecidableEq, Repr

namespace PieceWindowPlan

/-- `lastPiece(for:)` in `make`. -/
def lastPiece (fileOffset fileSize pieceLength byteOffset fileLast playback byteCount : Int) :
    Option Int := do
  let inclusiveEnd ← add64 byteOffset
    (min (← sub64 (← sub64 fileSize 1) byteOffset) (← sub64 byteCount 1))
  return min fileLast (max playback (← div64 (← add64 fileOffset inclusiveEnd) pieceLength))

/-- `make`: `none` when it traps, else the plan or the code and text of the error thrown. -/
def make (fileOffset fileSize pieceLength byteOffset criticalBufferBytes warmBufferBytes
    consumptionBytesPerSecond : Int) : Option (Except (Code × String) PieceWindowPlan) :=
  if ¬ 0 < fileSize then
    some (.error (.invalidOffset, "A streaming window cannot target an empty file."))
  else if ¬ (0 < pieceLength ∧ 0 ≤ fileOffset ∧ 0 ≤ byteOffset ∧ byteOffset < fileSize
      ∧ 0 < criticalBufferBytes ∧ criticalBufferBytes ≤ warmBufferBytes
      ∧ 0 < consumptionBytesPerSecond) then
    some (.error (.invalidOffset, "The streaming byte range is invalid."))
  else do
    let fileFirst ← div64 fileOffset pieceLength
    let fileLast ← div64 (← sub64 (← add64 fileOffset fileSize) 1) pieceLength
    let playback :=
      min fileLast (max fileFirst (← div64 (← add64 fileOffset byteOffset) pieceLength))
    let criticalLast ← lastPiece fileOffset fileSize pieceLength byteOffset fileLast playback
      criticalBufferBytes
    let warmLast ← lastPiece fileOffset fileSize pieceLength byteOffset fileLast playback
      warmBufferBytes
    return .ok ⟨fileFirst, criticalLast, warmLast, playback⟩

end PieceWindowPlan

/-! ## C++ -/

/-- `std::clamp`, which is defined for an ordered range only. -/
def clampInRange (v lo hi : Int) : Option Int := if hi < lo then none else some (clamp v lo hi)

/-- The last byte of a window of `bytes` bytes, counted from the start of the file. -/
def windowEnd (file : FileEntry) (byteOffset bytes : Int) : Option Int := do
  add64 byteOffset (min (← sub64 (← sub64 file.size 1) byteOffset) (← sub64 bytes 1))

/-- The piece at a byte of the file, as an `int`. -/
def pieceAt (info : TorrentInfo) (file : FileEntry) (offset : Int) : Option Int := do
  exact32 (← div64 (← add64 file.offset offset) info.pieceLength)

/-- The window arithmetic of `ltkit_session_update_streaming_window`. -/
def streamingWindow64 (info : TorrentInfo) (file : FileEntry)
    (byteOffset criticalBytes warmBytes : Int) : Option Window := do
  let fileFirst ← exact32 (info.pieceIndexAtFile file)
  let fileLast ← exact32 (info.lastPieceIndexAtFile file)
  let playback ← clampInRange (← pieceAt info file byteOffset) fileFirst fileLast
  let criticalEnd ← windowEnd file byteOffset criticalBytes
  let warmEnd ← windowEnd file byteOffset warmBytes
  let criticalLast ← clampInRange (← pieceAt info file criticalEnd) playback fileLast
  let warmLast ← clampInRange (← pieceAt info file warmEnd) criticalLast fileLast
  return { fileFirst, fileLast, playback, criticalLast, warmLast }

/-- `bytes_ahead`: how far a critical piece begins behind the requested byte. -/
def bytesAhead (info : TorrentInfo) (file : FileEntry) (byteOffset piece : Int) : Option Int := do
  let pieceFileOffset ← sub64 (← mul64 piece info.pieceLength) file.offset
  sub64 (max pieceFileOffset byteOffset) byteOffset

/-! ## Files and requests -/

/-- A non-empty file whose bytes fit in 63 bits and whose pieces fit in 32. -/
structure Streamable (info : TorrentInfo) (file : FileEntry) : Prop where
  offset : 0 ≤ file.offset
  size : 0 < file.size
  fits : file.offset + file.size ≤ 9223372036854775807
  length : 0 < info.pieceLength
  pieces : info.lastPieceIndexAtFile file ≤ 2147483647

section

variable {info : TorrentInfo} {file : FileEntry} {byteOffset criticalBytes warmBytes rate : Int}

theorem Streamable.mono (hfile : Streamable info file) {a b : Int} (h : a ≤ b) :
    pieceOf info file a ≤ pieceOf info file b := pieceOf_mono hfile.length h

/-- The pieces of the file fit in 32 bits. -/
theorem pieceOf_fits (hfile : Streamable info file) {offset : Int} (h0 : 0 ≤ offset)
    (h1 : offset < file.size) : Fits32 (pieceOf info file offset) := by
  have hfirst : 0 ≤ pieceOf info file offset :=
    Int.ediv_nonneg (by have := hfile.offset; omega) (Int.le_of_lt hfile.length)
  have hlast : pieceOf info file offset ≤ pieceOf info file (file.size - 1) :=
    hfile.mono (by omega)
  rw [pieceOf_last] at hlast
  have := hfile.pieces
  exact ⟨by omega, by omega⟩

/-- The position of a byte of the file, without overflow. -/
theorem add64_offset (hfile : Streamable info file) {offset : Int} (h0 : 0 ≤ offset)
    (h1 : offset < file.size) : add64 file.offset offset = some (file.offset + offset) := by
  have ho := hfile.offset
  have hf := hfile.fits
  exact add64_eq ⟨by omega, by omega⟩

/-- The division that finds a piece, without overflow. -/
theorem div64_offset (hfile : Streamable info file) {offset : Int} (h0 : 0 ≤ offset)
    (h1 : offset < file.size) :
    div64 (file.offset + offset) info.pieceLength = some (pieceOf info file offset) := by
  have ho := hfile.offset
  have hf := hfile.fits
  exact div64_eq (by omega) ⟨by omega, by omega⟩ hfile.length

theorem pieceAt_eq (hfile : Streamable info file) {offset : Int} (h0 : 0 ≤ offset)
    (h1 : offset < file.size) : pieceAt info file offset = some (pieceOf info file offset) := by
  unfold pieceAt
  simp only [add64_offset hfile h0 h1, div64_offset hfile h0 h1, Option.bind_eq_bind,
    Option.bind_some]
  exact exact32_eq (pieceOf_fits hfile h0 h1)

/-- What is left of the file behind the requested byte, without overflow. -/
theorem sub64_rest (hfile : Streamable info file) (h0 : 0 ≤ byteOffset)
    (h1 : byteOffset < file.size) :
    sub64 file.size 1 = some (file.size - 1) ∧
      sub64 (file.size - 1) byteOffset = some (file.size - 1 - byteOffset) := by
  have ho := hfile.offset
  have hf := hfile.fits
  exact ⟨sub64_eq ⟨by omega, by omega⟩, sub64_eq ⟨by omega, by omega⟩⟩

/-- The last byte of a window, without overflow. -/
theorem add64_lastByte (hfile : Streamable info file) (h0 : 0 ≤ byteOffset)
    (h1 : byteOffset < file.size) {bytes : Int} (hbytes : 0 < bytes) (hfits : Fits64 bytes) :
    sub64 bytes 1 = some (bytes - 1) ∧
      add64 byteOffset (min (file.size - 1 - byteOffset) (bytes - 1)) =
        some (lastByte file byteOffset bytes) := by
  obtain ⟨hlo, hhi⟩ := lastByte_bounds h1 hbytes
  have ho := hfile.offset
  have hf := hfile.fits
  obtain ⟨_, hmax⟩ := hfits
  have hend : Fits64 (lastByte file byteOffset bytes) := ⟨by omega, by omega⟩
  exact ⟨sub64_eq ⟨by omega, by omega⟩, add64_eq hend⟩

/-- The end of a window, without overflow. -/
theorem windowEnd_eq (hfile : Streamable info file) (h0 : 0 ≤ byteOffset)
    (h1 : byteOffset < file.size) {bytes : Int} (hbytes : 0 < bytes) (hfits : Fits64 bytes) :
    windowEnd file byteOffset bytes = some (lastByte file byteOffset bytes) := by
  obtain ⟨hsize, hrest⟩ := sub64_rest hfile h0 h1
  obtain ⟨hcount, hend⟩ := add64_lastByte hfile h0 h1 hbytes hfits
  unfold windowEnd
  simp only [hsize, hrest, hcount, hend, Option.bind_eq_bind, Option.bind_some]

theorem clampInRange_of_mem {v lo hi : Int} (hlo : lo ≤ v) (hhi : v ≤ hi) :
    clampInRange v lo hi = some v := by
  unfold clampInRange
  rw [if_neg (by omega), clamp_of_mem hlo hhi]

/-- The C++ arithmetic computes the window without overflow. -/
theorem streamingWindow64_eq (hfile : Streamable info file)
    (hreq : Request file byteOffset criticalBytes warmBytes rate) (hc : Fits64 criticalBytes)
    (hw : Fits64 warmBytes) :
    streamingWindow64 info file byteOffset criticalBytes warmBytes =
      some (requestWindow info file byteOffset criticalBytes warmBytes) := by
  obtain ⟨hplayback, hcritical, hwarm, hlast⟩ := requestWindow_order hfile.length hreq
  obtain ⟨hbyteCritical, hbyteWarm, hbyteLast⟩ := hreq.order
  obtain ⟨h0, h1, hpositive, hle, _⟩ := hreq
  have hsize := hfile.size
  have hfirst := exact32_eq (pieceOf_fits hfile (le_refl 0) hsize)
  have hend := exact32_eq (pieceOf_fits hfile (by omega : 0 ≤ file.size - 1) (by omega))
  rw [pieceOf_first] at hfirst
  rw [pieceOf_last] at hend
  unfold streamingWindow64
  simp only [hfirst, hend, pieceAt_eq hfile h0 h1, windowEnd_eq hfile h0 h1 hpositive hc,
    windowEnd_eq hfile h0 h1 (by omega : 0 < warmBytes) hw, Option.bind_eq_bind,
    Option.bind_some, pieceAt_eq hfile (by omega : 0 ≤ lastByte file byteOffset criticalBytes)
      (by omega), pieceAt_eq hfile (by omega : 0 ≤ lastByte file byteOffset warmBytes) (by omega)]
  rw [← pieceOf_first, ← pieceOf_last, clampInRange_of_mem hplayback (by omega)]
  simp only [Option.bind_some]
  rw [clampInRange_of_mem hcritical (by omega)]
  simp only [Option.bind_some]
  rw [clampInRange_of_mem hwarm hlast]
  rfl

/-- The deadlines of the critical pieces are computed without overflow. -/
theorem bytesAhead_eq (hfile : Streamable info file) (h0 : 0 ≤ byteOffset)
    (h1 : byteOffset < file.size) {piece : Int} (hfirst : pieceOf info file byteOffset ≤ piece)
    (hlast : piece ≤ pieceOf info file (file.size - 1)) :
    bytesAhead info file byteOffset piece =
      some (max (piece * info.pieceLength - file.offset) byteOffset - byteOffset) := by
  have ho := hfile.offset
  have hf := hfile.fits
  have hpiece : 0 ≤ piece :=
    le_trans (Int.ediv_nonneg (by omega) (Int.le_of_lt hfile.length)) hfirst
  have hstart : piece * info.pieceLength ≤ file.offset + (file.size - 1) :=
    (Int.le_ediv_iff_mul_le hfile.length).mp hlast
  have hpositive : 0 ≤ piece * info.pieceLength :=
    Int.mul_nonneg hpiece (Int.le_of_lt hfile.length)
  have hmul : Fits64 (piece * info.pieceLength) := ⟨by omega, by omega⟩
  have hsub : Fits64 (piece * info.pieceLength - file.offset) := ⟨by omega, by omega⟩
  unfold bytesAhead
  simp only [mul64_eq hmul, sub64_eq hsub, Option.bind_eq_bind, Option.bind_some]
  exact sub64_eq ⟨by omega, by omega⟩

/-- The plan of a request. -/
def requestPlan (info : TorrentInfo) (file : FileEntry)
    (byteOffset criticalBytes warmBytes : Int) : PieceWindowPlan where
  firstPiece := pieceOf info file 0
  criticalLastPiece := pieceOf info file (lastByte file byteOffset criticalBytes)
  warmLastPiece := pieceOf info file (lastByte file byteOffset warmBytes)
  playbackPiece := pieceOf info file byteOffset

/-- `lastPiece(for:)` finds the piece of the last byte. -/
theorem lastPiece_eq (hfile : Streamable info file) (h0 : 0 ≤ byteOffset)
    (h1 : byteOffset < file.size) {bytes : Int} (hbytes : 0 < bytes) (hfits : Fits64 bytes) :
    PieceWindowPlan.lastPiece file.offset file.size info.pieceLength byteOffset
        (pieceOf info file (file.size - 1)) (pieceOf info file byteOffset) bytes =
      some (pieceOf info file (lastByte file byteOffset bytes)) := by
  obtain ⟨hlo, hhi⟩ := lastByte_bounds h1 hbytes
  obtain ⟨hsize, hrest⟩ := sub64_rest hfile h0 h1
  obtain ⟨hcount, hend⟩ := add64_lastByte hfile h0 h1 hbytes hfits
  have hfirst := hfile.mono hlo
  have hlast := hfile.mono (by omega : lastByte file byteOffset bytes ≤ file.size - 1)
  have hposition : 0 ≤ lastByte file byteOffset bytes := by omega
  unfold PieceWindowPlan.lastPiece
  simp only [hsize, hrest, hcount, hend, add64_offset hfile hposition hhi,
    div64_offset hfile hposition hhi, Option.bind_eq_bind, Option.bind_some, Option.pure_def]
  rw [max_eq_right hfirst, min_eq_right hlast]

/-- `make` never traps, and accepts exactly the requests for the file. -/
theorem make_eq (byteOffset rate : Int) (hfile : Streamable info file) (hc : Fits64 criticalBytes)
    (hw : Fits64 warmBytes) :
    (Request file byteOffset criticalBytes warmBytes rate ∧
      PieceWindowPlan.make file.offset file.size info.pieceLength byteOffset criticalBytes
        warmBytes rate = some (.ok (requestPlan info file byteOffset criticalBytes warmBytes))) ∨
    (¬ Request file byteOffset criticalBytes warmBytes rate ∧
      PieceWindowPlan.make file.offset file.size info.pieceLength byteOffset criticalBytes
        warmBytes rate =
          some (.error (.invalidOffset, "The streaming byte range is invalid."))) := by
  have hsize := hfile.size
  unfold PieceWindowPlan.make
  rw [if_neg (not_not.mpr hsize)]
  split
  · next hreject =>
      refine Or.inr ⟨fun hreq => hreject ?_, rfl⟩
      exact ⟨hfile.length, hfile.offset, hreq.offset, hreq.inside, hreq.critical, hreq.warm,
        hreq.rate⟩
  · next haccept =>
      obtain ⟨_, _, h0, h1, hpositive, hle, hrate⟩ := not_not.mp haccept
      have hreq : Request file byteOffset criticalBytes warmBytes rate :=
        ⟨h0, h1, hpositive, hle, hrate⟩
      refine Or.inl ⟨hreq, ?_⟩
      have ho := hfile.offset
      have hf := hfile.fits
      have hplayback := hfile.mono h0
      have hlast := hfile.mono (by omega : byteOffset ≤ file.size - 1)
      have hfirst : div64 file.offset info.pieceLength = some (pieceOf info file 0) := by
        have h := div64_offset hfile (le_refl 0) hsize
        rwa [Int.add_zero] at h
      have hbytes : add64 file.offset file.size = some (file.offset + file.size) :=
        add64_eq ⟨by omega, by omega⟩
      have hend : sub64 (file.offset + file.size) 1 = some (file.offset + (file.size - 1)) := by
        rw [← Int.add_sub_assoc]
        exact sub64_eq ⟨by omega, by omega⟩
      simp only [hfirst, hbytes, hend, div64_offset hfile (by omega : 0 ≤ file.size - 1) (by omega),
        add64_offset hfile h0 h1, div64_offset hfile h0 h1, Option.bind_eq_bind,
        Option.bind_some, max_eq_right hplayback, min_eq_right hlast,
        lastPiece_eq hfile h0 h1 hpositive hc,
        lastPiece_eq hfile h0 h1 (by omega : 0 < warmBytes) hw, Option.pure_def]
      rfl

/-- The pieces up to that of the last byte of a window are exactly those that the bytes of the
    window lie in. -/
theorem pieces_exact (hfile : Streamable info file) (h1 : byteOffset < file.size) {bytes : Int}
    (hbytes : 0 < bytes) (piece : Int) :
    (pieceOf info file byteOffset ≤ piece ∧
        piece ≤ pieceOf info file (lastByte file byteOffset bytes)) ↔
      ∃ b, byteOffset ≤ b ∧ b < min (byteOffset + bytes) file.size ∧
        pieceOf info file b = piece := by
  obtain ⟨hlo, _⟩ := lastByte_bounds h1 hbytes
  unfold pieceOf
  rw [Blocks.mem_blocks_iff hfile.length (by omega)]
  unfold lastByte
  constructor
  · rintro ⟨x, hfirst, hlast, rfl⟩
    exact ⟨x - file.offset, by omega, by omega, by rw [add_sub_cancel]⟩
  · rintro ⟨b, hfirst, hlast, rfl⟩
    exact ⟨file.offset + b, by omega, by omega, rfl⟩

/-! ## The native call -/

/-- What an active job with this file selected answers. -/
theorem updateStreamingWindow_reply {env : Environment} {value : Job} {fileIndex : Int}
    {edges : Bool} (hinfo : env.torrentFile value.handle = some info)
    (hlayout : info.layout[fileIndex.toNat]? = some file) (hdesired : fileIndex ∈ value.desiredFiles)
    (hselected : (selectedFiles info value).2 = true) (hsize : 0 < file.size) :
    (updateStreamingWindow env value fileIndex byteOffset criticalBytes warmBytes rate edges).2.2 =
      if file.size ≤ byteOffset then
        .fail .invalidOffset "The streaming byte offset is outside the file."
      else .ok (.text (windowJson fileIndex byteOffset
        (streamingWindow info file byteOffset criticalBytes warmBytes))) := by
  have happly := applySelection_ok env value hinfo (Prod.ext rfl hselected)
  unfold updateStreamingWindow
  simp only [hinfo, hlayout, hdesired, not_true_eq_false, if_false, happly]
  by_cases hoffset : file.size ≤ byteOffset
  · simp [hoffset]
  · simp [hoffset, Int.not_le.mpr hsize]

end

namespace Session

/-- Commands can always be carried out. -/
theorem performAll_tuning (s : Session) (env : Environment) (id : String)
    {actions : List Action} (h : Tuning actions) : ∃ s', s.performAll env id actions = some s' := by
  induction actions generalizing s with
  | nil => exact ⟨s, rfl⟩
  | cons a actions ih =>
      obtain ⟨c, rfl, _⟩ := h a List.mem_cons_self
      obtain ⟨s', hs'⟩ := ih (s.record (.command c)) fun b hb => h b (List.mem_cons_of_mem _ hb)
      exact ⟨s', by rw [performAll_cons]; exact hs'⟩

end Session

/-! ## Both sides -/

/-- The window is ordered inside the file, and made of exactly the pieces that the requested
    bytes lie in. -/
structure WindowExact (info : TorrentInfo) (file : FileEntry)
    (byteOffset criticalBytes warmBytes : Int) (w : Window) : Prop where
  fileFirst : w.fileFirst = info.pieceIndexAtFile file
  fileLast : w.fileLast = info.lastPieceIndexAtFile file
  order : w.fileFirst ≤ w.playback ∧ w.playback ≤ w.criticalLast ∧ w.criticalLast ≤ w.warmLast ∧
    w.warmLast ≤ w.fileLast
  critical : ∀ piece, (w.playback ≤ piece ∧ piece ≤ w.criticalLast) ↔
    ∃ b, byteOffset ≤ b ∧ b < min (byteOffset + criticalBytes) file.size ∧
      (file.offset + b) / info.pieceLength = piece
  warm : ∀ piece, (w.playback ≤ piece ∧ piece ≤ w.warmLast) ↔
    ∃ b, byteOffset ≤ b ∧ b < min (byteOffset + warmBytes) file.size ∧
      (file.offset + b) / info.pieceLength = piece

/-- The two implementations agree: the native call succeeds exactly when `make` returns a plan,
    and then both have computed the same exact window, without overflow. -/
theorem windows_agree {s : Session} {env : Environment} {id : String} {value : Job}
    {info : TorrentInfo} {file : FileEntry} {fileIndex : Int}
    {byteOffset criticalBytes warmBytes rate : Int} {edges : Bool}
    (hvalue : s.jobs.lookup id = some value) (hactive : value.stopped = false)
    (hinfo : env.torrentFile value.handle = some info) (hindex : 0 ≤ fileIndex)
    (hlayout : info.layout[fileIndex.toNat]? = some file)
    (hdesired : fileIndex ∈ value.desiredFiles) (hselected : (selectedFiles info value).2 = true)
    (hmalloc : env.malloc = true) (hfile : Streamable info file) (hc : Fits64 criticalBytes)
    (hw : Fits64 warmBytes) :
    ∃ s' response result,
      s.ltkitSessionUpdateStreamingWindow env id fileIndex byteOffset criticalBytes warmBytes rate
        edges = some (s', response) ∧
      PieceWindowPlan.make file.offset file.size info.pieceLength byteOffset criticalBytes
        warmBytes rate = some result ∧
      (response.code = .ok ↔ ∃ plan, result = .ok plan) ∧
      ∀ plan, result = .ok plan →
        let w := streamingWindow info file byteOffset criticalBytes warmBytes
        response.output = .text (windowJson fileIndex byteOffset w) ∧
        streamingWindow64 info file byteOffset criticalBytes warmBytes = some w ∧
        (∀ piece ∈ indexRange w.playback w.criticalLast,
          (bytesAhead info file byteOffset piece).isSome = true) ∧
        plan = ⟨w.fileFirst, w.criticalLast, w.warmLast, w.playback⟩ ∧
        WindowExact info file byteOffset criticalBytes warmBytes w := by
  -- the call, beyond the check of its arguments
  have hcall : ¬ (fileIndex < 0 ∨ byteOffset < 0 ∨ criticalBytes ≤ 0 ∨ warmBytes < criticalBytes ∨
      rate ≤ 0) → ∃ s' : Session, s.ltkitSessionUpdateStreamingWindow env id fileIndex byteOffset
        criticalBytes warmBytes rate edges =
          some (s'.reply env "The streaming response could not be allocated."
            (if file.size ≤ byteOffset then
              .fail .invalidOffset "The streaming byte offset is outside the file."
            else .ok (.text (windowJson fileIndex byteOffset
              (streamingWindow info file byteOffset criticalBytes warmBytes))))) := by
    intro hargs
    obtain ⟨s', hs'⟩ := Session.performAll_tuning
      (s.setJob id (updateStreamingWindow env value fileIndex byteOffset criticalBytes warmBytes
        rate edges).1) env id
      (updateStreamingWindow_spec env value fileIndex byteOffset criticalBytes warmBytes rate
        edges).2.tuning
    refine ⟨s', ?_⟩
    unfold Session.ltkitSessionUpdateStreamingWindow Session.onActive
    rw [if_neg hargs, hvalue]
    simp only [hactive, Bool.false_eq_true, if_false, Session.update, hs', Option.map_some,
      updateStreamingWindow_reply hinfo hlayout hdesired hselected hfile.size]
  rcases make_eq byteOffset rate hfile hc hw with ⟨hreq, hmake⟩ | ⟨hreq, hmake⟩
  · obtain ⟨s', hs'⟩ := hcall (by
      obtain ⟨h0, h1, h2, h3, h4⟩ := hreq
      omega)
    have hinside := hreq.inside
    rw [if_neg (by omega)] at hs'
    simp only [Session.reply, copyBuffer, hmalloc, Bool.or_true, if_true] at hs'
    refine ⟨_, _, _, hs', hmake, ⟨fun _ => ⟨_, rfl⟩, fun _ => rfl⟩, ?_⟩
    intro plan hplan
    obtain rfl := Except.ok.inj hplan
    have horder := requestWindow_order hfile.length hreq
    refine ⟨rfl, ?_, ?_, ?_, ?_⟩
    · rw [streamingWindow_eq hfile.length hreq]
      exact streamingWindow64_eq hfile hreq hc hw
    · intro piece hpiece
      rw [streamingWindow_eq hfile.length hreq] at hpiece
      obtain ⟨hfirst, hlast⟩ := mem_indexRange.mp hpiece
      have hend : piece ≤ pieceOf info file (file.size - 1) :=
        le_trans hlast (le_trans horder.2.2.1 horder.2.2.2)
      rw [bytesAhead_eq hfile hreq.offset hinside hfirst hend]
      rfl
    · rw [streamingWindow_eq hfile.length hreq]
      rfl
    · rw [streamingWindow_eq hfile.length hreq]
      have hpositive := hreq.critical
      have hwarm := hreq.warm
      exact ⟨pieceOf_first, pieceOf_last, horder, pieces_exact hfile hinside hpositive,
        pieces_exact hfile hinside (by omega)⟩
  · have hno : ¬ ∃ plan : PieceWindowPlan, Except.error (Code.invalidOffset,
        "The streaming byte range is invalid.") = Except.ok plan := by
      rintro ⟨plan, hplan⟩
      cases hplan
    by_cases hargs : fileIndex < 0 ∨ byteOffset < 0 ∨ criticalBytes ≤ 0 ∨
        warmBytes < criticalBytes ∨ rate ≤ 0
    · refine ⟨s, { code := .invalidArgument }, _, ?_, hmake, ?_, ?_⟩
      · unfold Session.ltkitSessionUpdateStreamingWindow
        rw [if_pos hargs]
      · exact ⟨fun h => Code.noConfusion h, fun h => absurd h hno⟩
      · exact fun plan hplan => absurd ⟨plan, hplan⟩ hno
    · obtain ⟨s', hs'⟩ := hcall hargs
      have houtside : file.size ≤ byteOffset := by
        by_contra hinside
        exact hreq ⟨by omega, by omega, by omega, by omega, by omega⟩
      rw [if_pos houtside] at hs'
      refine ⟨_, _, _, hs', hmake, ?_, fun plan hplan => absurd ⟨plan, hplan⟩ hno⟩
      exact ⟨fun h => Code.noConfusion h, fun h => absurd h hno⟩

/-! ## A request at the last bytes -/

/-- A file of the last six bytes of two pieces, at an unaligned offset. -/
def tailFile : FileEntry where
  path := "g"
  size := 6
  offset := 10

def tailInfo : TorrentInfo :=
  { sampleInfo with pieceLength := 8, numPieces := 2, totalSize := 16, layout := [tailFile] }

def tailEnvironment : Environment := { sampleEnvironment with torrentFile := fun _ => some tailInfo }

/-- The last byte, with a window larger than the file. -/
theorem tail_windows_agree :
    ∃ s' response, Session.ltkitSessionUpdateStreamingWindow
        { jobs := Finmap.singleton "a" tunedJob } tailEnvironment "a" 0 5 9223372036854775807
        9223372036854775807 1 true = some (s', response) ∧ response.code = .ok ∧
      PieceWindowPlan.make 10 6 8 5 9223372036854775807 9223372036854775807 1 =
        some (.ok ⟨1, 1, 1, 1⟩) := by
  have hfile : Streamable tailInfo tailFile :=
    ⟨by decide, by decide, by decide, by decide, by decide⟩
  have hvalue : (Finmap.singleton "a" tunedJob : Finmap fun _ : String => Job).lookup "a" =
      some tunedJob := Finmap.lookup_singleton_eq
  have hplan : PieceWindowPlan.make 10 6 8 5 9223372036854775807 9223372036854775807 1 =
      some (.ok ⟨1, 1, 1, 1⟩) := by decide +kernel
  obtain ⟨s', response, result, hcall, hmake, hiff, _⟩ :=
    @windows_agree { jobs := Finmap.singleton "a" tunedJob } tailEnvironment "a" tunedJob tailInfo
      tailFile 0 5 9223372036854775807 9223372036854775807 1 true hvalue rfl rfl (by decide) rfl
      (by decide) (by decide +kernel) rfl hfile (by decide) (by decide)
  exact ⟨s', response, hcall, hiff.mpr ⟨_, Option.some.inj (hmake.symm.trans hplan)⟩, hplan⟩

end LibtorrentKit
