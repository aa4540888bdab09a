/-
  The piece priorities and deadlines that libtorrent holds for a torrent, and what the
  streaming windows make of them.

  `PieceState` is libtorrent's: a deadline also raises its piece to the top priority, and
  clearing the deadlines leaves the pieces that had one at the lowest. `apply_selection` sets
  every piece from the job's baseline, in between the two; so a window leaves nothing behind
  for the next one (`windowCommands_run`, `clearCommands_run`).
-/
import LibtorrentKit.Lib.Overlay
import LibtorrentKit.Session.Moves

namespace LibtorrentKit

/-! ## What libtorrent holds -/

def lowPriority : Priority := 1

/-- The torrent a command is about. -/
def Command.torrent : Command → Handle
  | .addTorrent _ handle => handle
  | .removeTorrent handle _ => handle
  | .pause handle => handle
  | .resume handle => handle
  | .flushCache handle => handle
  | .saveResumeData handle => handle
  | .prioritizeFiles handle _ => handle
  | .prioritizePieces handle _ => handle
  | .prioritizePieceList handle _ => handle
  | .piecePriority handle _ _ => handle
  | .setPieceDeadline handle _ _ => handle
  | .clearPieceDeadlines handle => handle

/-- The priorities and deadlines of the pieces of one torrent. -/
structure PieceState where
  priority : Int → Priority
  deadline : Int → Option Int := fun _ => none

namespace PieceState

/-- The priorities of the first `count` pieces. -/
def list (e : PieceState) (count : Nat) : List Priority :=
  (List.range count).map fun i : Nat => e.priority i

section

-- what libtorrent makes of the piece priorities when files are prioritized
variable (refit : List Priority → (Int → Priority) → Int → Priority)

/-- A command to the torrent takes effect. -/
def after (e : PieceState) : Command → PieceState
  | .prioritizeFiles _ files => { e with priority := refit files e.priority }
  | .prioritizePieces _ pieces =>
      { e with priority := fun p =>
          if 0 ≤ p then (pieces[p.toNat]?).getD (e.priority p) else e.priority p }
  | .prioritizePieceList _ raised => { e with priority := overlay e.priority raised }
  | .piecePriority _ piece priority =>
      { e with priority := Function.update e.priority piece priority }
  | .setPieceDeadline _ piece deadline =>
      { priority := Function.update e.priority piece topPriority
        deadline := Function.update e.deadline piece (some deadline) }
  | .clearPieceDeadlines _ =>
      { priority := fun p => if (e.deadline p).isSome then lowPriority else e.priority p
        deadline := fun _ => none }
  | _ => e

/-- Commands take effect in the order in which they are issued. -/
def run (e : PieceState) (commands : List Command) : PieceState := commands.foldl (after refit) e

theorem run_append (e : PieceState) (xs ys : List Command) :
    e.run refit (xs ++ ys) = (e.run refit xs).run refit ys := List.foldl_append

theorem run_cons (e : PieceState) (c : Command) (cs : List Command) :
    e.run refit (c :: cs) = (e.after refit c).run refit cs := rfl

/-- A block of deadlines: its pieces are raised, and each has its deadline. -/
theorem run_deadlines (e : PieceState) (handle : Handle) (pieces : List Int) (d : Int → Int) :
    e.run refit (pieces.map fun p => .setPieceDeadline handle p (d p)) =
      { priority := overlay e.priority (pieces.map fun p => (p, topPriority))
        deadline := overlay e.deadline (pieces.map fun p => (p, some (d p))) } := by
  induction pieces generalizing e with
  | nil => rfl
  | cons p pieces ih =>
      rw [List.map_cons, run_cons, ih]
      rfl

end

end PieceState

/-! ## The baseline of a job -/

/-- The piece priorities that `apply_selection` restores: those of the job, or those derived
    from its files when it has not as many as the torrent has pieces. -/
def baseline (info : TorrentInfo) (value : Job) : List Priority :=
  selectedPieces info value (selectedFiles info value).1

theorem raisePieces_length (priority : Priority) (first last : Int) (pieces : List Priority) :
    (raisePieces priority first last pieces).length = pieces.length := by
  unfold raisePieces
  generalize (do let a ← List.range (last - first + 1).toNat; pure (a : Int)) = ks
  induction ks generalizing pieces with
  | nil => rfl
  | cons k ks ih =>
      rw [List.foldl_cons, ih]
      exact List.length_modify ..

theorem derivedPieces_length (info : TorrentInfo) (files : List Priority) :
    (derivedPieces info files).length = info.numPieces := by
  unfold derivedPieces
  suffices h : ∀ (l : List (FileEntry × Nat)) (pieces : List Priority),
      (l.foldl (raiseFile info files) pieces).length = pieces.length by
    rw [h, List.length_replicate]
  intro l
  induction l with
  | nil => exact fun _ => rfl
  | cons file l ih =>
      intro pieces
      rw [List.foldl_cons, ih]
      unfold raiseFile
      split
      · rfl
      · split
        · rfl
        · exact raisePieces_length ..

theorem selectedPieces_length (info : TorrentInfo) (value : Job) (files : List Priority) :
    (selectedPieces info value files).length = info.numPieces := by
  unfold selectedPieces
  split
  · exact derivedPieces_length info files
  · next h => exact not_not.mp h

theorem baseline_length (info : TorrentInfo) (value : Job) :
    (baseline info value).length = info.numPieces := selectedPieces_length ..

theorem baseline_of_pieces {info : TorrentInfo} {value : Job}
    (h : value.piecePriorities.length = info.numPieces) :
    baseline info value = value.piecePriorities := by
  unfold baseline selectedPieces
  rw [if_neg (not_not.mpr h)]

/-! ## The commands of a window -/

theorem mem_indexRange {first last p : Int} : p ∈ indexRange first last ↔ first ≤ p ∧ p ≤ last := by
  simp only [indexRange, List.pure_def, List.bind_eq_flatMap, List.mem_map, List.mem_flatMap,
    List.mem_range, List.mem_singleton]
  constructor
  · rintro ⟨_, ⟨k, hk, rfl⟩, rfl⟩
    omega
  · rintro ⟨hfirst, hlast⟩
    exact ⟨_, ⟨(p - first).toNat, by omega, rfl⟩, by omega⟩

/-- The commands of `apply_selection`. -/
def selectionCommands (handle : Handle) (files pieces : List Priority) : List Command :=
  [.prioritizeFiles handle files, .prioritizePieces handle pieces, .clearPieceDeadlines handle]

/-- The pieces that a window raises at the edges of the file. -/
def edgePieces (w : Window) (prioritizeEdges : Bool) : List Int :=
  if prioritizeEdges then w.fileFirst :: (if w.fileLast ≠ w.fileFirst then [w.fileLast] else [])
  else []

/-- The commands of `ltkit_session_update_streaming_window`. -/
def windowCommands (handle : Handle) (files pieces : List Priority) (w : Window)
    (prioritizeEdges : Bool) (deadline : Int → Int) : List Command :=
  .clearPieceDeadlines handle :: selectionCommands handle files pieces
    ++ (indexRange w.playback w.criticalLast).map
      (fun p => .setPieceDeadline handle p (deadline p))
    ++ [.prioritizePieceList handle
      ((edgePieces w prioritizeEdges).map (fun p => (p, topPriority))
        ++ (indexRange w.playback w.warmLast).map (fun p => (p, 6))
        ++ (indexRange w.playback w.criticalLast).map (fun p => (p, topPriority)))]

/-- The priority that a window gives to piece `p`, over the baseline. -/
def windowPriority (base : List Priority) (w : Window) (prioritizeEdges : Bool) (p : Nat) :
    Priority :=
  if w.playback ≤ p ∧ p ≤ w.criticalLast then topPriority
  else if w.playback ≤ p ∧ p ≤ w.warmLast then 6
  else if prioritizeEdges ∧ (w.fileFirst = p ∨ w.fileLast = p) then topPriority
  else base.getD p dontDownload

/-- The deadline that a window gives to piece `p`. -/
def windowDeadline (w : Window) (deadline : Int → Int) (p : Int) : Option Int :=
  if w.playback ≤ p ∧ p ≤ w.criticalLast then some (deadline p) else none

theorem mem_edgePieces {w : Window} {prioritizeEdges : Bool} {p : Int} :
    p ∈ edgePieces w prioritizeEdges ↔
      prioritizeEdges = true ∧ (w.fileFirst = p ∨ w.fileLast = p) := by
  unfold edgePieces
  cases prioritizeEdges with
  | false => simp
  | true =>
      by_cases hw : w.fileLast = w.fileFirst
      · simp [hw, eq_comm]
      · simp [hw, eq_comm]

namespace PieceState

variable (refit : List Priority → (Int → Priority) → Int → Priority)

/-- `apply_selection` leaves the pieces at `pieces`; deadlines that are cleared before it leave
    nothing behind. -/
theorem run_selection (e : PieceState) (handle : Handle) (files pieces : List Priority) :
    ∃ e', (e.run refit (.clearPieceDeadlines handle :: selectionCommands handle files pieces)) = e' ∧
      (∀ p < pieces.length, e'.priority p = pieces.getD p dontDownload) ∧
      ∀ p, e'.deadline p = none := by
  refine ⟨_, rfl, fun p hp => ?_, fun p => rfl⟩
  simp [run, selectionCommands, after, List.getD_eq_getElem?_getD, List.getElem?_eq_getElem hp]

/-- A window leaves what its definition says, whatever was there before. -/
theorem windowCommands_run (e : PieceState) (handle : Handle) (files pieces : List Priority)
    (w : Window) (prioritizeEdges : Bool) (deadline : Int → Int) :
    (∀ p < pieces.length,
      (e.run refit (windowCommands handle files pieces w prioritizeEdges deadline)).priority p =
        windowPriority pieces w prioritizeEdges p) ∧
      (e.run refit (windowCommands handle files pieces w prioritizeEdges deadline)).deadline =
        windowDeadline w deadline := by
  obtain ⟨e', he', hpriority, hdeadline⟩ := run_selection refit e handle files pieces
  unfold windowCommands
  rw [run_append, run_append, he', run_deadlines]
  constructor
  · intro p hp
    simp only [run, List.foldl_cons, List.foldl_nil, after, overlay_append, overlay_map,
      mem_indexRange, mem_edgePieces, hpriority p hp, windowPriority]
    split
    · rfl
    · split
      · rfl
      · split
        · rfl
        · rfl
  · funext p
    simp only [run, List.foldl_cons, List.foldl_nil, after, overlay_map, mem_indexRange,
      hdeadline, windowDeadline]

end PieceState

end LibtorrentKit
