/-
  The geometry of a streaming window.

  An accepted request names bytes of one file (`Request`), and the window of
  `ltkit_session_update_streaming_window` is made of the pieces that hold these bytes: no clamp
  of the code has an effect (`streamingWindow_eq`).
-/
import LibtorrentKit.Lib.Blocks
import LibtorrentKit.Session.Selection

namespace LibtorrentKit

/-- A request that neither side rejects. -/
structure Request (file : FileEntry) (byteOffset criticalBytes warmBytes rate : Int) : Prop where
  offset : 0 ≤ byteOffset
  inside : byteOffset < file.size
  critical : 0 < criticalBytes
  warm : criticalBytes ≤ warmBytes
  rate : 0 < rate

/-- The piece at byte `offset` of the file. -/
def pieceOf (info : TorrentInfo) (file : FileEntry) (offset : Int) : Int :=
  (file.offset + offset) / info.pieceLength

/-- The last byte of a window of `bytes` bytes. -/
def lastByte (file : FileEntry) (byteOffset bytes : Int) : Int :=
  byteOffset + min (file.size - 1 - byteOffset) (bytes - 1)

section

variable {info : TorrentInfo} {file : FileEntry} {byteOffset criticalBytes warmBytes rate : Int}

theorem pieceOf_mono (hlength : 0 < info.pieceLength) {a b : Int} (h : a ≤ b) :
    pieceOf info file a ≤ pieceOf info file b := Blocks.div_mono hlength (by omega)

theorem pieceOf_first : pieceOf info file 0 = info.pieceIndexAtFile file := by
  rw [pieceOf, TorrentInfo.pieceIndexAtFile, Int.add_zero]

theorem pieceOf_last : pieceOf info file (file.size - 1) = info.lastPieceIndexAtFile file := by
  rw [pieceOf, TorrentInfo.lastPieceIndexAtFile, Int.add_sub_assoc]

theorem lastByte_bounds (h1 : byteOffset < file.size) {bytes : Int} (hbytes : 0 < bytes) :
    byteOffset ≤ lastByte file byteOffset bytes ∧ lastByte file byteOffset bytes < file.size := by
  unfold lastByte
  constructor
  · omega
  · omega

theorem clamp_of_mem {v lo hi : Int} (hlo : lo ≤ v) (hhi : v ≤ hi) : clamp v lo hi = v := by
  unfold clamp
  rw [if_neg (by omega), if_neg (by omega)]

/-- The bytes of a request, from the first of the file to the last. -/
theorem Request.order (hreq : Request file byteOffset criticalBytes warmBytes rate) :
    byteOffset ≤ lastByte file byteOffset criticalBytes ∧
      lastByte file byteOffset criticalBytes ≤ lastByte file byteOffset warmBytes ∧
      lastByte file byteOffset warmBytes ≤ file.size - 1 := by
  obtain ⟨h0, h1, hc, hw, _⟩ := hreq
  unfold lastByte
  omega

/-- The window of a request: no clamp of the code has an effect. -/
def requestWindow (info : TorrentInfo) (file : FileEntry)
    (byteOffset criticalBytes warmBytes : Int) : Window where
  fileFirst := pieceOf info file 0
  fileLast := pieceOf info file (file.size - 1)
  playback := pieceOf info file byteOffset
  criticalLast := pieceOf info file (lastByte file byteOffset criticalBytes)
  warmLast := pieceOf info file (lastByte file byteOffset warmBytes)

theorem requestWindow_order (hlength : 0 < info.pieceLength)
    (hreq : Request file byteOffset criticalBytes warmBytes rate) :
    pieceOf info file 0 ≤ pieceOf info file byteOffset ∧
      pieceOf info file byteOffset ≤
        pieceOf info file (lastByte file byteOffset criticalBytes) ∧
      pieceOf info file (lastByte file byteOffset criticalBytes) ≤
        pieceOf info file (lastByte file byteOffset warmBytes) ∧
      pieceOf info file (lastByte file byteOffset warmBytes) ≤
        pieceOf info file (file.size - 1) := by
  obtain ⟨hcritical, hwarm, hlast⟩ := hreq.order
  exact ⟨pieceOf_mono hlength hreq.offset, pieceOf_mono hlength hcritical, pieceOf_mono hlength hwarm,
    pieceOf_mono hlength hlast⟩

theorem streamingWindow_eq (hlength : 0 < info.pieceLength)
    (hreq : Request file byteOffset criticalBytes warmBytes rate) :
    streamingWindow info file byteOffset criticalBytes warmBytes =
      requestWindow info file byteOffset criticalBytes warmBytes := by
  obtain ⟨hplayback, hcritical, hwarm, hlast⟩ := requestWindow_order hlength hreq
  have h1 : clamp (pieceOf info file byteOffset) (pieceOf info file 0)
      (pieceOf info file (file.size - 1)) = pieceOf info file byteOffset :=
    clamp_of_mem hplayback (by omega)
  have h2 : clamp (pieceOf info file (lastByte file byteOffset criticalBytes))
      (pieceOf info file byteOffset) (pieceOf info file (file.size - 1)) =
        pieceOf info file (lastByte file byteOffset criticalBytes) :=
    clamp_of_mem hcritical (by omega)
  have h3 : clamp (pieceOf info file (lastByte file byteOffset warmBytes))
      (pieceOf info file (lastByte file byteOffset criticalBytes))
      (pieceOf info file (file.size - 1)) =
        pieceOf info file (lastByte file byteOffset warmBytes) := clamp_of_mem hwarm hlast
  unfold streamingWindow requestWindow
  dsimp only
  rw [← pieceOf_first, ← pieceOf_last]
  simp only [pieceOf, lastByte] at h1 h2 h3 ⊢
  rw [h1, h2, h3]

end

end LibtorrentKit
