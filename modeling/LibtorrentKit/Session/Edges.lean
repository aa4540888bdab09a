/-
  The priorities that a streaming window is meant to set.

  A window is meant to give the top priority to its critical pieces and, when asked, to the first
  and last piece of the file. The list that the code hands to `prioritize_pieces` names the edges
  before the warm pieces, and the last entry for a piece wins; so a last piece that only the warm
  window reaches is left with the warm priority (`update_promised_iff`).
-/
import LibtorrentKit.Session.Baseline
import LibtorrentKit.Session.Geometry
import LibtorrentKit.Session.Windows

namespace LibtorrentKit

/-- The priority that piece `p` is meant to have: the critical pieces and the edges come first. -/
def promisedPriority (base : List Priority) (w : Window) (prioritizeEdges : Bool) (p : Nat) :
    Priority :=
  if (w.playback ≤ p ∧ p ≤ w.criticalLast) ∨
      (prioritizeEdges ∧ (w.fileFirst = p ∨ w.fileLast = p)) then topPriority
  else if w.playback ≤ p ∧ p ≤ w.warmLast then 6
  else base.getD p dontDownload

/-- What libtorrent is meant to hold for the first `count` pieces after an update. -/
structure WindowPromised (base : List Priority) (w : Window) (prioritizeEdges : Bool) (count : Nat)
    (e : PieceState) : Prop where
  priority : ∀ p < count, e.priority p = promisedPriority base w prioritizeEdges p
  deadline : ∀ p : Int, (e.deadline p).isSome = true ↔ w.playback ≤ p ∧ p ≤ w.criticalLast

/-- The warm bytes reach the last piece of the file and the critical ones do not. -/
def OnlyWarmAtEnd (info : TorrentInfo) (file : FileEntry)
    (byteOffset criticalBytes warmBytes : Int) : Prop :=
  pieceOf info file (byteOffset + criticalBytes - 1) < info.lastPieceIndexAtFile file ∧
    info.lastPieceIndexAtFile file ≤ pieceOf info file (byteOffset + warmBytes - 1)

section

variable {info : TorrentInfo} {file : FileEntry} {byteOffset criticalBytes warmBytes rate : Int}

/-- The bytes asked for, cut at the end of the file, reach the last piece when they do at all. -/
theorem pieceOf_lastByte (hlength : 0 < info.pieceLength) {bytes : Int} :
    pieceOf info file (lastByte file byteOffset bytes) < info.lastPieceIndexAtFile file ↔
      pieceOf info file (byteOffset + bytes - 1) < info.lastPieceIndexAtFile file := by
  rcases le_total (byteOffset + bytes - 1) (file.size - 1) with hin | hout
  · have hbyte : lastByte file byteOffset bytes = byteOffset + bytes - 1 := by
      unfold lastByte
      omega
    rw [hbyte]
  · have hbyte : lastByte file byteOffset bytes = file.size - 1 := by
      unfold lastByte
      omega
    have hreach := @pieceOf_mono info file hlength _ _ hout
    rw [hbyte]
    rw [pieceOf_last] at hreach ⊢
    omega

/-- The window of a request reaches the last piece with its warm part only. -/
theorem onlyWarmAtEnd_iff (hlength : 0 < info.pieceLength)
    (hreq : Request file byteOffset criticalBytes warmBytes rate) :
    OnlyWarmAtEnd info file byteOffset criticalBytes warmBytes ↔
      (streamingWindow info file byteOffset criticalBytes warmBytes).criticalLast <
          (streamingWindow info file byteOffset criticalBytes warmBytes).fileLast ∧
        (streamingWindow info file byteOffset criticalBytes warmBytes).fileLast ≤
          (streamingWindow info file byteOffset criticalBytes warmBytes).warmLast := by
  have hcritical := @pieceOf_lastByte info file byteOffset hlength criticalBytes
  have hwarm := @pieceOf_lastByte info file byteOffset hlength warmBytes
  rw [streamingWindow_eq hlength hreq]
  show _ ↔ pieceOf info file (lastByte file byteOffset criticalBytes) <
      pieceOf info file (file.size - 1) ∧
    pieceOf info file (file.size - 1) ≤ pieceOf info file (lastByte file byteOffset warmBytes)
  unfold OnlyWarmAtEnd
  rw [pieceOf_last]
  omega

/-- Off the edges that only the warm window reaches, the window sets what it is meant to. -/
theorem windowPriority_eq {base : List Priority} {w : Window} {edges : Bool} {p : Nat}
    (hplayback : w.fileFirst ≤ w.playback) (hcritical : w.playback ≤ w.criticalLast)
    (h : ¬ (edges = true ∧ w.criticalLast < w.fileLast ∧ w.fileLast ≤ w.warmLast)) :
    windowPriority base w edges p = promisedPriority base w edges p := by
  unfold windowPriority promisedPriority
  by_cases hin : w.playback ≤ p ∧ p ≤ w.criticalLast
  · rw [if_pos hin, if_pos (Or.inl hin)]
  · rw [if_neg hin]
    by_cases hedge : edges = true ∧ (w.fileFirst = p ∨ w.fileLast = p)
    · -- an edge after the critical pieces is not reached, one before them neither
      have hwarm : ¬ (w.playback ≤ p ∧ p ≤ w.warmLast) := by
        rintro ⟨hfirst, hlast⟩
        rcases hedge.2 with hp | hp
        · exact hin ⟨hfirst, by omega⟩
        · exact h ⟨hedge.1, by omega, by omega⟩
      rw [if_neg hwarm, if_pos hedge, if_pos (Or.inr hedge)]
    · rw [if_neg hedge, if_neg (not_or.mpr ⟨hin, hedge⟩)]

/-- At the last piece, reached by the warm window only, it does not. -/
theorem windowPriority_ne {base : List Priority} {w : Window} {p : Nat} (hp : w.fileLast = p)
    (hplayback : w.playback ≤ w.fileLast) (hcritical : w.criticalLast < w.fileLast)
    (hwarm : w.fileLast ≤ w.warmLast) :
    windowPriority base w true p ≠ promisedPriority base w true p := by
  have hset : windowPriority base w true p = 6 := by
    unfold windowPriority
    rw [if_neg (by omega), if_pos (by omega)]
  have hmeant : promisedPriority base w true p = topPriority :=
    if_pos (Or.inr ⟨rfl, Or.inr hp⟩)
  rw [hset, hmeant]
  decide

/-- A successful update has a request that neither side rejects. -/
theorem updateStreamingWindow_request {s s' : Session} {env : Environment} {id : String}
    {value : Job} {fileIndex : Int} {edges : Bool} {response : Response}
    (hvalue : s.jobs.lookup id = some value) (hinfo : env.torrentFile value.handle = some info)
    (hfile : info.layout[fileIndex.toNat]? = some file)
    (h : s.enter env (.updateStreamingWindow id fileIndex byteOffset criticalBytes warmBytes rate
      edges) = some (s', some response)) (hok : response.code = .ok) :
    Request file byteOffset criticalBytes warmBytes rate := by
  have hr := Session.of_returning h
  unfold Session.ltkitSessionUpdateStreamingWindow at hr
  split at hr
  · obtain ⟨_, rfl⟩ := Prod.ext_iff.mp (Option.some.inj hr)
    cases hok
  · next harguments =>
      obtain ⟨value₀, output, hvalue₀, hanswer, _⟩ :=
        Session.onActive_ok (fun _ _ _ => updateStreamingWindow_fails) hr hok
      obtain rfl := Option.some.inj (hvalue.symm.trans hvalue₀)
      unfold updateStreamingWindow at hanswer
      simp only [hinfo, hfile] at hanswer
      split at hanswer
      · cases hanswer
      · split at hanswer
        · cases hanswer
        · next hrange => exact ⟨by omega, by omega, by omega, by omega, by omega⟩

/-- After a successful update libtorrent holds what the window is meant to set exactly when
    the edges were not asked for or the last piece of the file is not reached by the warm
    window alone. -/
theorem update_promised_iff {s s' : Session} {env : Environment} {id : String} {value : Job}
    {fileIndex : Int} {edges : Bool} {response : Response}
    (refit : List Priority → (Int → Priority) → Int → Priority) (e : PieceState)
    (hlayout : info.Contiguous) (hvalue : s.jobs.lookup id = some value)
    (hinfo : env.torrentFile value.handle = some info)
    (hfile : info.layout[fileIndex.toNat]? = some file)
    (h : s.enter env (.updateStreamingWindow id fileIndex byteOffset criticalBytes warmBytes rate
      edges) = some (s', some response)) (hok : response.code = .ok) :
    WindowPromised (baseline info value)
        (streamingWindow info file byteOffset criticalBytes warmBytes) edges info.numPieces
        (e.run refit (commandsTo value.handle (s'.trace.drop s.trace.length))) ↔
      ¬ (edges = true ∧ OnlyWarmAtEnd info file byteOffset criticalBytes warmBytes) := by
  have hreq := updateStreamingWindow_request hvalue hinfo hfile h hok
  obtain ⟨value', new, _, _, htrace, heffect⟩ :=
    @Session.enter_tune _ _ _ _ _ _ (.update fileIndex byteOffset criticalBytes warmBytes rate edges)
      _ hvalue hinfo h hok
  generalize hcommands : commandsTo value.handle new = commands at heffect
  cases heffect with
  | @update _ _ _ _ _ _ file₀ files _ hfile₀ hfiles =>
      obtain rfl := Option.some.inj (hfile.symm.trans hfile₀)
      have hbase : selectedPieces info value files = baseline info value := by
        rw [baseline, hfiles]
      rw [onlyWarmAtEnd_iff hlayout.length hreq, htrace, List.drop_left, hcommands, hbase]
      obtain ⟨hpriority, hdeadline⟩ := PieceState.windowCommands_run refit e value.handle files
        (baseline info value) (streamingWindow info file byteOffset criticalBytes warmBytes) edges
        (pieceDeadline info file byteOffset rate)
      rw [baseline_length] at hpriority
      obtain ⟨hfirst, hplayback, hwarm, hlast⟩ := requestWindow_order hlayout.length hreq
      rw [streamingWindow_eq hlayout.length hreq] at hpriority hdeadline ⊢
      constructor
      · rintro ⟨hpromised, _⟩ ⟨rfl, hcritical, hreached⟩
        obtain ⟨h0, hcount⟩ := hlayout.overlaps_bounds hfile
          (show info.Overlaps file (pieceOf info file (file.size - 1)) from
            ⟨file.offset + (file.size - 1), by have := hreq.offset; have := hreq.inside; omega,
              by omega, rfl⟩)
        have hp : pieceOf info file (file.size - 1) =
            ((pieceOf info file (file.size - 1)).toNat : Int) := (Int.toNat_of_nonneg h0).symm
        refine windowPriority_ne hp (by show pieceOf _ _ _ ≤ pieceOf _ _ _; omega) hcritical
          hreached ((hpriority _ (by omega)).symm.trans (hpromised _ (by omega)))
      · intro hnot
        refine ⟨fun p hp => (hpriority p hp).trans (windowPriority_eq hfirst hplayback hnot),
          fun p => ?_⟩
        rw [hdeadline, windowDeadline_isSome, mem_indexRange]

end

/-! ## A window that lowers an edge -/

/-- One file of two pieces. -/
def edgeInfo : TorrentInfo :=
  { sampleInfo with
    numPieces := 2
    totalSize := 24
    layout := [{ path := "f", size := 24, offset := 0 }] }

theorem edgeInfo_contiguous : edgeInfo.Contiguous where
  length := by decide
  size := by decide
  offset := by
    intro i file hfile
    match i with
    | 0 => obtain rfl := Option.some.inj hfile; rfl
    | i + 1 => cases hfile
  total := rfl
  pieces := rfl

def edgeEnvironment : Environment :=
  { sampleEnvironment with torrentFile := fun _ => some edgeInfo }

def edgeJob : Job where
  handle := 1
  desiredFiles := [0]
  filePriorities := [4]
  metadataReady := true

theorem edgeSession_job :
    (sessionAfter edgeEnvironment [.add sampleRequest]).jobs.lookup "a" = some edgeJob :=
  Finmap.lookup_insert _

/-- An update of the window with its edges: the file has 24 bytes, the first piece 16 of them. -/
def edgeUpdate (criticalBytes warmBytes : Int) : Api :=
  .updateStreamingWindow "a" 0 0 criticalBytes warmBytes 1 true

/-- What libtorrent holds after the torrent was added and its window updated. -/
def edgePieceState (criticalBytes warmBytes : Int) : PieceState :=
  PieceState.run sampleRefit { priority := fun _ => dontDownload }
    (commandsTo 1 ((sessionAfter edgeEnvironment
      ([.add sampleRequest] ++ [edgeUpdate criticalBytes warmBytes])).trace.drop
        (sessionAfter edgeEnvironment [.add sampleRequest]).trace.length))

/-- A window whose critical part reaches the end of the file keeps the edges at the top. -/
theorem edgeUpdate_keeps :
    WindowPromised (baseline edgeInfo edgeJob)
      (streamingWindow edgeInfo ⟨"f", false, 24, 0, false⟩ 0 24 24) true 2
      (edgePieceState 24 24) := by
  obtain ⟨response, hr, hok⟩ := @sessionAfter_answers edgeEnvironment [.add sampleRequest]
    (edgeUpdate 24 24) .ok (by decide +kernel)
  exact (update_promised_iff sampleRefit { priority := fun _ => dontDownload } edgeInfo_contiguous
    edgeSession_job rfl rfl hr hok).mpr (fun h => absurd h.2.1 (by decide))

/-- With sixteen critical bytes and twenty-four warm ones the last piece is left at 6. -/
theorem edgeUpdate_lowers :
    (∃ response, (sessionAfter edgeEnvironment [.add sampleRequest]).enter edgeEnvironment
        (edgeUpdate 16 24) = some (sessionAfter edgeEnvironment
          ([.add sampleRequest] ++ [edgeUpdate 16 24]), some response) ∧ response.code = .ok) ∧
      (edgePieceState 16 24).priority 1 = 6 ∧
      ¬ WindowPromised (baseline edgeInfo edgeJob)
        (streamingWindow edgeInfo ⟨"f", false, 24, 0, false⟩ 0 16 24) true 2
        (edgePieceState 16 24) := by
  have hlowered : (edgePieceState 16 24).priority 1 = 6 := by decide +kernel
  refine ⟨sessionAfter_answers (by decide +kernel), hlowered, fun h => ?_⟩
  have hpriority := h.priority 1 (by decide)
  rw [show ((1 : Nat) : Int) = 1 from rfl, hlowered] at hpriority
  revert hpriority
  decide

end LibtorrentKit
