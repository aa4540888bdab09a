/-
  Streaming windows across a checkpoint and a restore.

  A checkpoint saves the piece priorities that libtorrent holds, window included, and an add
  with the resume data makes them the baseline of the new job.

  `window_stays_behind_iff`: the restored job has the baseline of the original one exactly when
  the window that was active at the checkpoint had raised no piece.
-/
import LibtorrentKit.Session.Identity
import LibtorrentKit.Session.Windows

namespace LibtorrentKit

/-- The call gives piece `p` a priority of its own. -/
def Tune.covers (info : TorrentInfo) (p : Nat) : Tune → Prop
  | .update fileIndex byteOffset criticalBytes warmBytes _ edges =>
      ∃ file, info.layout[fileIndex.toNat]? = some file ∧
        ∃ w, w = streamingWindow info file byteOffset criticalBytes warmBytes ∧
          (w.playback ≤ p ∧ p ≤ w.criticalLast ∨ w.playback ≤ p ∧ p ≤ w.warmLast ∨
            edges = true ∧ (w.fileFirst = p ∨ w.fileLast = p))
  | .clear => False
  | .piece _ _ => True

/-- The last call is not for a window, or its window gives every piece the priority that the
    piece has in the baseline. -/
def HarmlessWindow (info : TorrentInfo) (base : List Priority) : Option Tune → Prop
  | some (.update fileIndex byteOffset criticalBytes warmBytes _ edges) =>
      ∀ file, info.layout[fileIndex.toNat]? = some file → ∀ p < info.numPieces,
        windowPriority base (streamingWindow info file byteOffset criticalBytes warmBytes) edges p =
          base.getD p dontDownload
  | _ => True

theorem windowPriority_of_not_covers {info : TorrentInfo} (base : List Priority) {p : Nat}
    {fileIndex byteOffset criticalBytes warmBytes rate : Int} {edges : Bool} {file : FileEntry}
    (hfile : info.layout[fileIndex.toNat]? = some file)
    (h : ¬ Tune.covers info p (.update fileIndex byteOffset criticalBytes warmBytes rate edges)) :
    windowPriority base (streamingWindow info file byteOffset criticalBytes warmBytes) edges p =
      base.getD p dontDownload := by
  have hout : ∀ w, w = streamingWindow info file byteOffset criticalBytes warmBytes →
      ¬ (w.playback ≤ p ∧ p ≤ w.criticalLast ∨ w.playback ≤ p ∧ p ≤ w.warmLast ∨
        edges = true ∧ (w.fileFirst = p ∨ w.fileLast = p)) :=
    fun w hw hin => h ⟨file, hfile, w, hw, hin⟩
  obtain ⟨hcritical, hwarm, hedges⟩ : _ ∧ _ ∧ _ := by
    simpa only [not_or] using hout _ rfl
  unfold windowPriority
  rw [if_neg hcritical, if_neg hwarm, if_neg hedges]

theorem PieceState.list_getD {e : PieceState} {count p : Nat} (hp : p < count) :
    (e.list count).getD p dontDownload = e.priority p := by
  simp [PieceState.list, hp]

/-- The call updates or clears the window. -/
def Tune.isWindow : Tune → Bool
  | .piece _ _ => false
  | _ => true

/-- Calls for windows leave the baseline alone. -/
theorem overlaid_of_windows {base : List Priority} {ops : List Tune}
    (h : ∀ op ∈ ops, op.isWindow = true) : overlaid base ops = base := by
  induction ops with
  | nil => rfl
  | cons op ops ih =>
      obtain ⟨hop, hops⟩ := List.forall_mem_cons.mp h
      cases op with
      | update => exact ih hops
      | clear => exact ih hops
      | piece piece priority => cases hop

section

variable {refit : List Priority → (Int → Priority) → Int → Priority} {info : TorrentInfo}

/-- What a call that gives piece `p` no priority of its own leaves there. -/
theorem TuneLeaves.priority {base : List Priority} {pieces : PieceState} {op : Tune} {p : Nat}
    (h : TuneLeaves info base pieces op) (hp : p < info.numPieces) (hout : ¬ op.covers info p) :
    pieces.priority p = base.getD p dontDownload := by
  cases op with
  | update =>
      obtain ⟨file, hfile, hlist, _⟩ := h
      have hbase := windowPriority_of_not_covers base hfile hout
      rw [← PieceState.list_getD hp, hlist, ← hbase]
      simp [List.getD_eq_getElem?_getD, hp]
  | clear => rw [← PieceState.list_getD hp, h.1]
  | piece => exact absurd trivial hout

/-- A window that is left active is harmless when libtorrent still holds the baseline. -/
theorem harmless_iff {w₀ w : Tuned} {id : String} {handle : Handle} {base : List Priority}
    {ops : List (Environment × Tune)} (hstart : w₀.Follows info id handle base)
    (hbase : w₀.pieces.list info.numPieces = base)
    (hrun : Lts.exec (Tuned.step refit info id handle) w₀ ops = some w)
    (hwindows : ∀ l ∈ ops, l.2.isWindow = true) :
    (∀ p < info.numPieces, w.pieces.priority p = base.getD p dontDownload) ↔
      HarmlessWindow info base (ops.getLast?.map Prod.snd) := by
  have hoverlaid : overlaid base (ops.map Prod.snd) = base :=
    overlaid_of_windows fun op hop => by
      obtain ⟨l, hl, rfl⟩ := List.mem_map.mp hop
      exact hwindows l hl
  have hleaves := (Tuned.run_follows hstart hrun).2
  rw [hoverlaid] at hleaves
  cases hlast : ops.getLast? with
  | none =>
      obtain rfl := List.getLast?_eq_none_iff.mp hlast
      obtain rfl : w₀ = w := Option.some.inj hrun
      refine ⟨fun _ => trivial, fun _ p hp => ?_⟩
      rw [← PieceState.list_getD hp, hbase]
  | some l =>
      obtain ⟨env, op⟩ := l
      have hl := hleaves _ hlast
      cases op with
      | update fileIndex byteOffset criticalBytes warmBytes rate edges =>
          obtain ⟨file, hfile, hlist, _⟩ := hl
          have hpriority : ∀ p < info.numPieces, w.pieces.priority p = windowPriority base
              (streamingWindow info file byteOffset criticalBytes warmBytes) edges p := by
            intro p hp
            rw [← PieceState.list_getD hp, hlist]
            simp [List.getD_eq_getElem?_getD, hp]
          constructor
          · intro h file' hfile' p hp
            obtain rfl := Option.some.inj (hfile.symm.trans hfile')
            rw [← hpriority p hp]
            exact h p hp
          · intro h p hp
            rw [hpriority p hp]
            exact h file hfile p hp
      | clear => exact ⟨fun _ => trivial, fun _ p hp => hl.priority hp fun hc => hc⟩
      | piece piece priority => cases hwindows _ (List.mem_of_getLast? hlast)

/-- A job that was added with resume data has the saved priorities as its baseline. -/
theorem restored_follows {s t : Session} {env : Environment} {r : AddRequest}
    {restored params : AddTorrentParams} {job : Job} {saved : List Priority}
    (priority : Int → Priority) (hresume : restoredParams env r = some restored)
    (hsaved : restored.piecePriorities = saved) (hlength : saved.length = info.numPieces)
    (htarget : s.addTarget env r = some params)
    (hadd : s.ltkitSessionAdd env r = some (t, { code := .ok }))
    (hjob : t.jobs.lookup r.identifier = some job) :
    Tuned.Follows info r.identifier job.handle saved ⟨t, { priority }⟩ := by
  obtain ⟨read, hread, _⟩ := Session.add_of_target htarget
  obtain ⟨_, _, _, hpieces, hdeadlines⟩ := Session.add_job hread htarget hadd hjob
  have hown : job.piecePriorities = saved := by
    obtain ⟨source, _, h⟩ := Session.addParams_cases hread
    rcases h with ⟨hempty, _⟩ | ⟨restored', hne, hrestored', rfl⟩
    · simp [restoredParams, hempty] at hresume
    · simp only [restoredParams, List.isEmpty_iff, hne, if_false] at hresume
      obtain rfl := Option.some.inj (hresume.symm.trans hrestored')
      rw [hpieces, ← hsaved]
      rfl
  refine ⟨job, hjob, rfl, ?_, Or.inl (by rw [hown, hlength]), fun p => by simp [hdeadlines]⟩
  rw [baseline_of_pieces (by rw [hown, hlength]), hown]

/-- A streaming window stays behind when its torrent is restored exactly when it was harmless:
    after any sequence of window calls, a job restored from a checkpoint gives every piece that
    a call does not cover the priority that clearing the window gives it in the original
    session. -/
theorem window_stays_behind_iff {id : String} {handle : Handle} {w₀ w w₁ : Tuned}
    {value₀ : Job} {ops : List (Environment × Tune)} {env₁ : Environment}
    -- the original session, from a job without a window to the clear after the checkpoint
    (hvalue : w₀.session.jobs.lookup id = some value₀) (hhandle : value₀.handle = handle)
    (hbase : w₀.pieces.list info.numPieces = baseline info value₀)
    (hidle : value₀.deadlinePieces = ∅) (hnone : ∀ p, w₀.pieces.deadline p = none)
    (hrun : Lts.exec (Tuned.step refit info id handle) w₀ ops = some w)
    (hwindows : ∀ l ∈ ops, l.2.isWindow = true)
    (hclear : Tuned.step refit info id handle w (env₁, .clear) = some w₁)
    -- the new session, in which the checkpoint of `w` is restored and can be cleared
    {s t : Session} {env env₂ : Environment} {r : AddRequest} {restored params : AddTorrentParams}
    {job : Job} {priority : Int → Priority} {v₂ : Tuned}
    (hresume : restoredParams env r = some restored)
    (hsaved : restored.piecePriorities = w.pieces.list info.numPieces)
    (htarget : s.addTarget env r = some params)
    (hadd : s.ltkitSessionAdd env r = some (t, { code := .ok }))
    (hjob : t.jobs.lookup r.identifier = some job)
    (hcleared : Tuned.step refit info r.identifier job.handle ⟨t, { priority }⟩ (env₂, .clear) =
      some v₂) :
    (∀ env' op v, Tuned.step refit info r.identifier job.handle ⟨t, { priority }⟩ (env', op) =
        some v → ∀ p < info.numPieces, ¬ op.covers info p →
          v.pieces.priority p = w₁.pieces.priority p) ↔
      HarmlessWindow info (baseline info value₀) (ops.getLast?.map Prod.snd) := by
  have hstart : w₀.Follows info id handle (baseline info value₀) :=
    ⟨value₀, hvalue, hhandle, rfl, Or.inr hbase, fun p => by simp [hidle, hnone]⟩
  have hoverlaid : overlaid (baseline info value₀) (ops.map Prod.snd) = baseline info value₀ :=
    overlaid_of_windows fun op hop => by
      obtain ⟨l, hl, rfl⟩ := List.mem_map.mp hop
      exact hwindows l hl
  have horiginal : ∀ p < info.numPieces,
      w₁.pieces.priority p = (baseline info value₀).getD p dontDownload := by
    intro p hp
    have hfollows := (Tuned.run_follows hstart hrun).1
    rw [hoverlaid] at hfollows
    exact (Tuned.step_follows hfollows hclear).2.priority hp fun hc => hc
  have hrestored : ∀ {env' op v}, Tuned.step refit info r.identifier job.handle
      ⟨t, { priority }⟩ (env', op) = some v → ∀ p < info.numPieces, ¬ op.covers info p →
        v.pieces.priority p = w.pieces.priority p := by
    intro env' op v hstep p hp hout
    have hfollows := restored_follows priority hresume hsaved
      (PieceState.list_length ..) htarget hadd hjob
    rw [(Tuned.step_follows hfollows hstep).2.priority hp hout, PieceState.list_getD hp]
  rw [← harmless_iff hstart hbase hrun hwindows]
  constructor
  · intro h p hp
    rw [← hrestored hcleared p hp fun hc => hc, ← horiginal p hp]
    exact h _ _ _ hcleared p hp fun hc => hc
  · intro h env' op v hstep p hp hout
    rw [hrestored hstep p hp hout, horiginal p hp]
    exact h p hp

end

/-! ## A window at the checkpoint, and none -/

/-- A step of the torrent of `tunedStart`, and of its restored job. -/
def leakStep : Tuned → Environment × Tune → Option Tuned := Tuned.step sampleRefit sampleInfo "a" 1

/-- libtorrent holds `pieces`. -/
def heldEnvironment (pieces : List Priority) : Environment :=
  { sampleEnvironment with getPiecePriorities := fun _ => pieces }

/-- One update of the window. -/
def leakRun : List (Environment × Tune) := [(sampleEnvironment, .update 0 0 1 1 1 false)]

/-- The window is cleared again. -/
def clearedRun : List (Environment × Tune) := leakRun ++ [(heldEnvironment [7], .clear)]

def tunedAfter (ops : List (Environment × Tune)) : Tuned :=
  (Lts.exec leakStep tunedStart ops).getD tunedStart

theorem exec_tunedAfter {ops : List (Environment × Tune)}
    (h : (Lts.exec leakStep tunedStart ops).isSome = true) :
    Lts.exec leakStep tunedStart ops = some (tunedAfter ops) := by
  obtain ⟨w, hw⟩ := Option.isSome_iff_exists.mp h
  rw [tunedAfter, hw, Option.getD_some]

/-- The add that restores the torrent, with saved priorities. -/
def leakRequest : AddRequest := { sampleRequest with resumeData := [1] }

def leakResume (pieces : List Priority) : AddTorrentParams where
  infoHashes := { v1 := some "aa" }
  filePriorities := [4]
  piecePriorities := pieces

def leakEnvironment (pieces : List Priority) : Environment :=
  { sampleEnvironment with readResumeData := fun _ => some (leakResume pieces) }

/-- The new session after that add. -/
def leakSession (pieces : List Priority) : Session :=
  ((Session.ltkitSessionAdd {} (leakEnvironment pieces) leakRequest).map Prod.fst).getD {}

def restoredTuned (pieces : List Priority) : Tuned where
  session := leakSession pieces
  pieces := { priority := fun _ => dontDownload }

def leakJob (pieces : List Priority) : Job where
  handle := 1
  desiredFiles := [0]
  filePriorities := [4]
  piecePriorities := pieces
  metadataReady := true

theorem leakSession_added (pieces : List Priority) :
    Session.ltkitSessionAdd {} (leakEnvironment pieces) leakRequest =
      some (leakSession pieces, { code := .ok }) := rfl

theorem leakSession_job (pieces : List Priority) :
    (leakSession pieces).jobs.lookup "a" = some (leakJob pieces) := Finmap.lookup_insert _

/-- A window that is cleared before the checkpoint does not stay behind. -/
theorem clearedRun_stays_behind :
    ∃ w₁, leakStep (tunedAfter clearedRun) (sampleEnvironment, .clear) = some w₁ ∧
      ∀ env' op v, leakStep (restoredTuned [4]) (env', op) = some v → ∀ p < 1,
        ¬ op.covers sampleInfo p → v.pieces.priority p = w₁.pieces.priority p := by
  have hrun : Lts.exec leakStep tunedStart clearedRun = some (tunedAfter clearedRun) :=
    exec_tunedAfter (by decide +kernel)
  have hclear : (leakStep (tunedAfter clearedRun) (sampleEnvironment, .clear)).isSome = true := by
    decide +kernel
  have hcleared : (leakStep (restoredTuned [4])
      (heldEnvironment [0], .clear)).isSome = true := by decide +kernel
  have htarget : (Session.addTarget {} (leakEnvironment [4]) leakRequest).isSome = true := by
    decide +kernel
  have hvalue : tunedStart.session.jobs.lookup "a" = some tunedJob := Finmap.lookup_singleton_eq
  obtain ⟨w₁, hw₁⟩ := Option.isSome_iff_exists.mp hclear
  obtain ⟨v₂, hv₂⟩ := Option.isSome_iff_exists.mp hcleared
  obtain ⟨params, hparams⟩ := Option.isSome_iff_exists.mp htarget
  have hresume : restoredParams (leakEnvironment [4]) leakRequest = some (leakResume [4]) := rfl
  have hiff := window_stays_behind_iff hvalue rfl (by decide +kernel) rfl (fun _ => rfl) hrun
    (by decide) hw₁ hresume (by decide +kernel) hparams (leakSession_added [4])
    (leakSession_job [4]) hv₂
  exact ⟨w₁, hw₁, hiff.mpr trivial⟩

/-- A window that is active at the checkpoint becomes the baseline of the restored job. -/
theorem leakRun_leaks :
    Lts.exec leakStep tunedStart leakRun = some (tunedAfter leakRun) ∧
      (leakResume [7]).piecePriorities = (tunedAfter leakRun).pieces.list 1 ∧
      Session.ltkitSessionAdd {} (leakEnvironment [7]) leakRequest =
        some (leakSession [7], { code := .ok }) ∧
      ∃ w₁ v₂, leakStep (tunedAfter leakRun) (heldEnvironment [7], .clear) = some w₁ ∧
        leakStep (restoredTuned [7]) (heldEnvironment [0], .clear) = some v₂ ∧
        w₁.pieces.priority 0 = 4 ∧ v₂.pieces.priority 0 = 7 := by
  have hclear : (leakStep (tunedAfter leakRun) (heldEnvironment [7], .clear)).any
      (fun w => decide (w.pieces.priority 0 = 4)) = true := by decide +kernel
  have hcleared : (leakStep (restoredTuned [7]) (heldEnvironment [0], .clear)).any
      (fun v => decide (v.pieces.priority 0 = 7)) = true := by decide +kernel
  obtain ⟨w₁, hw₁, h₁⟩ := (Option.any_eq_true _ _).mp hclear
  obtain ⟨v₂, hv₂, h₂⟩ := (Option.any_eq_true _ _).mp hcleared
  exact ⟨exec_tunedAfter (by decide +kernel), by decide +kernel, leakSession_added [7], w₁, v₂,
    hw₁, hv₂, of_decide_eq_true h₁, of_decide_eq_true h₂⟩

end LibtorrentKit
