/-
  Selecting files anew while a streaming window is active.

  `apply_selection` sets the priority of every piece and clears the deadlines after that, and
  clearing leaves each piece that had one at the lowest priority. The calls that work on the
  window clear the deadlines beforehand as well; the calls that select files do not.

  `reselect_iff`: after `ltkit_session_select_files`, `…_set_file_priority` and
  `…_clear_streaming_window` libtorrent holds the priorities of the job exactly when no piece
  with a deadline is disturbed by that.
-/
import LibtorrentKit.Session.Baseline
import LibtorrentKit.Session.Wanted
import LibtorrentKit.Session.Windows

namespace LibtorrentKit

/-! ## The calls -/

/-- A call that sets all pieces of a torrent. -/
inductive Choice where
  | selectFiles (indexes : List Int) (primary : Int)
  | setFilePriority (fileIndex : Int) (priority : Nat)
  | clearStreamingWindow
  deriving DecidableEq, Repr

def Choice.api (id : String) : Choice → Api
  | .selectFiles indexes primary => .selectFiles id indexes primary
  | .setFilePriority fileIndex priority => .setFilePriority id fileIndex priority
  | .clearStreamingWindow => .clearStreamingWindow id

/-- The file priorities that a call to set one starts from and changes. -/
def changedFiles (info : TorrentInfo) (current : List Priority) (value : Job) (fileIndex : Int)
    (priority : Nat) : List Priority :=
  (fitted value.filePriorities current info.layout.length).set fileIndex.toNat priority

/-- The desired files of a job are those that its file priorities want. -/
def DesiresWanted (info : TorrentInfo) (value : Job) : Prop :=
  ∀ i < info.layout.length, (i : Int) ∈ value.desiredFiles ↔ wants value.filePriorities i = true

/-- A job and its commands after a successful call; `current` are libtorrent's file
    priorities. -/
inductive ChoiceEffect (info : TorrentInfo) (current : List Priority) (value : Job) :
    Choice → Job → List Command → Prop
  | selectFiles {indexes : List Int} {primary : Int} {value' : Job}
      (hvalues : ∀ a ∈ value'.filePriorities, a = dontDownload ∨ a = defaultPriority)
      (hwanted : DesiresWanted info value')
      (hpieces : value'.piecePriorities = derivedPieces info value'.filePriorities) :
      ChoiceEffect info current value (.selectFiles indexes primary) value'
        (selectionCommands value.handle value'.filePriorities value'.piecePriorities)
  | setFilePriority {fileIndex : Int} {priority : Nat} {value' : Job}
      (hfiles : value'.filePriorities = changedFiles info current value fileIndex priority)
      (hwanted : DesiresWanted info value')
      (hpieces : value'.piecePriorities = derivedPieces info value'.filePriorities) :
      ChoiceEffect info current value (.setFilePriority fileIndex priority) value'
        (selectionCommands value.handle value'.filePriorities value'.piecePriorities)
  | clearStreamingWindow {value' : Job} (hlength : value'.piecePriorities.length = info.numPieces) :
      ChoiceEffect info current value .clearStreamingWindow value'
        (.clearPieceDeadlines value.handle ::
          selectionCommands value.handle value'.filePriorities value'.piecePriorities)

theorem fitted_length (priorities current : List Priority) (count : Nat) :
    (fitted priorities current count).length = count := by
  unfold fitted
  split
  · rw [List.length_append, List.length_take, List.length_replicate]
    omega
  · next h => exact not_not.mp h

/-- Desired files have the default priority; the others keep what they have. -/
theorem mem_fillDesired {count : Nat} {priorities : List Priority} {desired : List Int}
    {a : Priority} (h : a ∈ (fillDesired count priorities desired).1) :
    a ∈ priorities ∨ a = defaultPriority := by
  induction desired generalizing priorities with
  | nil => exact Or.inl h
  | cons index rest ih =>
      unfold fillDesired at h
      split at h
      · exact Or.inl h
      · rcases ih h with hmem | rfl
        · exact List.mem_or_eq_of_mem_set hmem
        · exact Or.inr rfl

/-- The end of the two calls that select files, for a job without piece priorities. -/
theorem applyOr_effect {env : Environment} {info : TorrentInfo} {value : Job} {code : Code}
    {safeMessage : String} {output : Output}
    (h : (applyOr env value code safeMessage).2.2 = .ok output)
    (hinfo : env.torrentFile value.handle = some info) (hpieces : value.piecePriorities = []) :
    ∃ files, selectedFiles info value = (files, true) ∧
      applyOr env value code safeMessage =
        ({ value with
            filePriorities := files
            piecePriorities := derivedPieces info files
            deadlinePieces := ∅ },
          (selectionCommands value.handle files (derivedPieces info files)).map .command,
          .ok .none) := by
  rcases hfiles : selectedFiles info value with ⟨files, ok⟩
  unfold applyOr at h ⊢
  cases ok with
  | false => simp [applySelection_failed env value hinfo hfiles] at h
  | true =>
      refine ⟨files, rfl, ?_⟩
      rw [applySelection_ok env value hinfo hfiles, selectedPieces_derived files (Or.inl hpieces)]
      rfl

/-- When it fails, the file priorities are left as far as they were filled. -/
theorem applyOr_rejected {env : Environment} {info : TorrentInfo} {value : Job}
    {code code' : Code} {safeMessage safeMessage' : String}
    (h : (applyOr env value code safeMessage).2.2 = .fail code' safeMessage')
    (hinfo : env.torrentFile value.handle = some info) :
    ∃ files, selectedFiles info value = (files, false) ∧
      applyOr env value code safeMessage =
        ({ value with filePriorities := files }, [], .fail code safeMessage) := by
  rcases hfiles : selectedFiles info value with ⟨files, ok⟩
  unfold applyOr at h ⊢
  cases ok with
  | true => simp [applySelection_ok env value hinfo hfiles] at h
  | false =>
      refine ⟨files, rfl, ?_⟩
      rw [applySelection_failed env value hinfo hfiles]
      rfl

/-- A successful call that selects files. -/
theorem selectFiles_effect {env : Environment} {info : TorrentInfo} {value : Job}
    {indexes : List Int} {primary : Int} {output : Output}
    (hinfo : env.torrentFile value.handle = some info)
    (h : (selectFiles env value indexes primary).2.2 = .ok output) (current : List Priority) :
    ∃ commands, (selectFiles env value indexes primary).2.1 = commands.map .command ∧
      ChoiceEffect info current value (.selectFiles indexes primary)
        (selectFiles env value indexes primary).1 commands := by
  unfold selectFiles at h ⊢
  split at h
  · cases h
  · next hfree =>
      rw [if_neg hfree]
      split at h
      · cases h
      · next hsome =>
          rw [if_neg hsome]
          dsimp only at h ⊢
          split at h
          · cases h
          · next hprimary =>
              rw [if_neg hprimary]
              obtain ⟨files, hfiles, happly⟩ := applyOr_effect h hinfo rfl
              rw [happly]
              refine ⟨_, rfl, .selectFiles ?_ ?_ rfl⟩
              · -- no file has a priority but the default one
                intro a ha
                have hfirst := (Prod.ext_iff.mp hfiles).1
                change a ∈ files at ha
                change _ = files at hfirst
                rw [← hfirst] at ha
                unfold selectedFiles at ha
                dsimp only at ha
                split at ha
                · exact (mem_fillDesired ha).imp_left List.eq_of_mem_replicate
                · cases ha
              · intro i hi
                unfold selectedFiles at hfiles
                dsimp only at hfiles
                rw [if_pos (by simp; omega)] at hfiles
                exact (wants_filled hfiles i).symm

/-- A successful call that sets the priority of a file. -/
theorem setFilePriority_effect {env : Environment} {info : TorrentInfo} {value : Job}
    {fileIndex : Int} {priority : Nat} {output : Output}
    (hinfo : env.torrentFile value.handle = some info)
    (h : (setFilePriority env value fileIndex priority).2.2 = .ok output) :
    ∃ commands, (setFilePriority env value fileIndex priority).2.1 = commands.map .command ∧
      ChoiceEffect info (env.getFilePriorities value.handle) value
        (.setFilePriority fileIndex priority) (setFilePriority env value fileIndex priority).1
        commands := by
  unfold setFilePriority at h ⊢
  split at h
  · cases h
  · next hfree =>
      rw [if_neg hfree]
      simp only [hinfo] at h ⊢
      split at h
      · cases h
      · next hlast =>
          rw [if_neg hlast]
          obtain ⟨files, hfiles, happly⟩ := applyOr_effect h hinfo rfl
          have hkept : files =
              changedFiles info (env.getFilePriorities value.handle) value fileIndex priority := by
            unfold selectedFiles at hfiles
            dsimp only at hfiles
            rw [if_neg (by rw [List.length_set, fitted_length]; exact not_not.mpr rfl)] at hfiles
            exact (Prod.ext_iff.mp hfiles).1.symm
          rw [happly]
          refine ⟨_, rfl, .setFilePriority hkept ?_ rfl⟩
          intro i hi
          show (i : Int) ∈ ((List.range info.layout.length).filter _).map Int.ofNat ↔
            wants files i = true
          rw [hkept, List.mem_map]
          constructor
          · rintro ⟨k, hk, hki⟩
            obtain rfl : k = i := Int.ofNat.inj hki
            exact (List.mem_filter.mp hk).2
          · intro hwants
            exact ⟨i, List.mem_filter.mpr ⟨List.mem_range.mpr hi, hwants⟩, rfl⟩

theorem applyOr_fails {env : Environment} {value : Job} {code code' : Code}
    {safeMessage safeMessage' : String} (hcode : code ≠ .ok)
    (h : (applyOr env value code safeMessage).2.2 = .fail code' safeMessage') : code' ≠ .ok := by
  unfold applyOr at h
  dsimp only at h
  split at h
  · cases h
  · obtain rfl : code = code' := (Reply.fail.inj h).1
    exact hcode

theorem selectFiles_fails {env : Environment} {value : Job} {indexes : List Int} {primary : Int}
    {code : Code} {safeMessage : String}
    (h : (selectFiles env value indexes primary).2.2 = .fail code safeMessage) : code ≠ .ok := by
  unfold selectFiles at h
  dsimp only at h
  split at h
  · rintro rfl
    cases h
  · split at h
    · rintro rfl
      cases h
    · split at h
      · rintro rfl
        cases h
      · exact applyOr_fails (by decide) h

theorem setFilePriority_fails {env : Environment} {value : Job} {fileIndex : Int}
    {priority : Nat} {code : Code} {safeMessage : String}
    (h : (setFilePriority env value fileIndex priority).2.2 = .fail code safeMessage) :
    code ≠ .ok := by
  unfold setFilePriority at h
  dsimp only at h
  split at h
  · rintro rfl
    cases h
  · split at h
    · rintro rfl
      cases h
    · split at h
      · rintro rfl
        cases h
      · exact applyOr_fails (by decide) h

theorem selectionCommands_torrent {handle : Handle} {files pieces : List Priority} :
    ∀ c ∈ selectionCommands handle files pieces, c.torrent = handle := by
  intro c hc
  simp only [selectionCommands, List.mem_cons, List.not_mem_nil, or_false] at hc
  rcases hc with rfl | rfl | rfl <;> rfl

theorem ChoiceEffect.torrent {info : TorrentInfo} {current : List Priority} {value value' : Job}
    {op : Choice} {commands : List Command}
    (h : ChoiceEffect info current value op value' commands) :
    ∀ c ∈ commands, c.torrent = value.handle := by
  cases h with
  | selectFiles => exact selectionCommands_torrent
  | setFilePriority => exact selectionCommands_torrent
  | clearStreamingWindow => exact List.forall_mem_cons.mpr ⟨rfl, selectionCommands_torrent⟩

section

variable {info : TorrentInfo} {id : String}

/-- What a successful call does to the job and asks of its torrent. -/
theorem Session.enter_choice {s s' : Session} {env : Environment} {value : Job} {op : Choice}
    {response : Response} (hvalue : s.jobs.lookup id = some value)
    (hinfo : env.torrentFile value.handle = some info)
    (h : s.enter env (op.api id) = some (s', some response)) (hok : response.code = .ok) :
    ∃ value' new, s'.jobs.lookup id = some value' ∧ value'.handle = value.handle ∧
      s'.trace = s.trace ++ new ∧ ChoiceEffect info (env.getFilePriorities value.handle) value op
        value' (commandsTo value.handle new) := by
  have torrents : ∀ {value' : Job} {l : List Action}, (∃ commands, l = commands.map .command ∧
      ChoiceEffect info (env.getFilePriorities value.handle) value op value' commands) →
      ∃ commands, l = commands.map .command ∧ (∀ c ∈ commands, c.torrent = value.handle) ∧
        ChoiceEffect info (env.getFilePriorities value.handle) value op value' commands :=
    fun ⟨commands, hl, heffect⟩ => ⟨commands, hl, heffect.torrent, heffect⟩
  cases op with
  | selectFiles indexes primary =>
      have hr := Session.of_returning h
      unfold Session.ltkitSessionSelectFiles at hr
      split at hr
      · obtain ⟨_, rfl⟩ := Prod.ext_iff.mp (Option.some.inj hr)
        cases hok
      · exact Session.onActive_effect (fun value => selectFiles env value _ _) hvalue
          (fun _ _ _ => selectFiles_fails) (selectFiles_spec env value _ _).1
          (fun output ho => torrents (selectFiles_effect hinfo ho _)) hr hok
  | setFilePriority fileIndex priority =>
      have hr := Session.of_returning h
      unfold Session.ltkitSessionSetFilePriority at hr
      split at hr
      · obtain ⟨_, rfl⟩ := Prod.ext_iff.mp (Option.some.inj hr)
        cases hok
      · exact Session.onActive_effect (fun value => setFilePriority env value _ _) hvalue
          (fun _ _ _ => setFilePriority_fails) (setFilePriority_spec env value _ _).1
          (fun output ho => torrents (setFilePriority_effect hinfo ho)) hr hok
  | clearStreamingWindow =>
      obtain ⟨value', new, hvalue', hhandle, htrace, heffect⟩ :=
        @Session.enter_tune _ _ _ _ _ _ .clear _ hvalue hinfo h hok
      refine ⟨value', new, hvalue', hhandle, htrace, ?_⟩
      generalize commandsTo value.handle new = commands at heffect
      cases heffect with
      | clear hfiles hpriorities hpieces =>
          rw [← hpieces, ← hpriorities]
          exact .clearStreamingWindow (by rw [hpieces, selectedPieces_length])

end

/-! ## What libtorrent holds -/

/-- What libtorrent holds for the torrent after the commands of the session so far; `e` is what
    it held before the first. -/
def heldPieces (refit : List Priority → (Int → Priority) → Int → Priority) (e : PieceState)
    (handle : Handle) (s : Session) : PieceState :=
  e.run refit (commandsTo handle s.trace)

/-- Every piece has the priority of the job, and no deadline; after a selection the pieces
    without a byte of a selected file are not wanted. -/
structure Reselected (info : TorrentInfo) (op : Choice) (value : Job) (e : PieceState) : Prop where
  priority : ∀ p < info.numPieces, value.piecePriorities[p]? = some (e.priority p)
  unselected : op ≠ .clearStreamingWindow → ∀ p < info.numPieces,
    (∀ (i : Nat) (file : FileEntry), info.layout[i]? = some file → (i : Int) ∈ value.desiredFiles →
      ¬ info.Overlaps file p) → e.priority p = dontDownload
  deadline : ∀ p, e.deadline p = none

/-- No piece with a deadline is disturbed: there is none when files are selected, and each gets
    the lowest priority anyway when one file priority is set. -/
def Choice.Undisturbed (info : TorrentInfo) (current : List Priority) (value : Job)
    (e : PieceState) : Choice → Prop
  | .selectFiles _ _ => ∀ p < info.numPieces, e.deadline p = none
  | .setFilePriority fileIndex priority => ∀ p < info.numPieces, e.deadline p ≠ none →
      IsGreatest (insert dontDownload
        (info.prioritiesAt (changedFiles info current value fileIndex priority) p)) lowPriority
  | .clearStreamingWindow => True

namespace PieceState

variable (refit : List Priority → (Int → Priority) → Int → Priority)

/-- `apply_selection` over pieces that may have deadlines. -/
theorem run_selectionCommands (e : PieceState) (handle : Handle) (files pieces : List Priority) :
    (∀ p < pieces.length, (e.run refit (selectionCommands handle files pieces)).priority p =
      if e.deadline p ≠ none then lowPriority else pieces.getD p dontDownload) ∧
      ∀ p, (e.run refit (selectionCommands handle files pieces)).deadline p = none := by
  refine ⟨fun p hp => ?_, fun p => rfl⟩
  simp [run, selectionCommands, after, List.getD_eq_getElem?_getD, List.getElem?_eq_getElem hp,
    Option.isSome_iff_ne_none]

/-- It leaves the priorities that it sets exactly when the pieces with deadlines get the lowest. -/
theorem run_selectionCommands_iff (e : PieceState) (handle : Handle)
    (files pieces : List Priority) :
    (∀ p < pieces.length, pieces[p]? =
        some ((e.run refit (selectionCommands handle files pieces)).priority p)) ↔
      ∀ p < pieces.length, e.deadline p ≠ none → pieces[p]? = some lowPriority := by
  apply forall₂_congr
  intro p hp
  rw [(run_selectionCommands refit e handle files pieces).1 p hp, List.getD_eq_getElem?_getD,
    List.getElem?_eq_getElem hp, Option.getD_some]
  by_cases hdeadline : e.deadline p ≠ none
  · rw [if_pos hdeadline]
    exact ⟨fun h _ => h, fun h => h hdeadline⟩
  · rw [if_neg hdeadline]
    exact ⟨fun _ h => absurd h hdeadline, fun _ => rfl⟩

end PieceState

section

variable {info : TorrentInfo} {id : String}

/-- A piece without a byte of a wanted file has no priority. -/
theorem derivedPieces_unselected (hlayout : info.Contiguous) {value : Job}
    (hwanted : DesiresWanted info value) {p : Nat} (hp : p < info.numPieces)
    (h : ∀ (i : Nat) (file : FileEntry), info.layout[i]? = some file →
      (i : Int) ∈ value.desiredFiles → ¬ info.Overlaps file p) :
    (derivedPieces info value.filePriorities)[p]? = some dontDownload := by
  obtain ⟨a, ha, hgreatest⟩ := derivedPieces_greatest hlayout value.filePriorities hp
  rcases hgreatest.1 with rfl | ⟨i, file, hfile, hpriority, hoverlaps⟩
  · exact ha
  · have hi : i < info.layout.length := (List.getElem?_eq_some_iff.mp hfile).1
    have hnot : ¬ wants value.filePriorities i = true := fun hwants =>
      h i file hfile ((hwanted i hi).mpr hwants) hoverlaps
    have hzero : a = dontDownload := by
      by_contra ha
      exact hnot (by rw [wants, hpriority]; simpa using ha)
    rw [ha, hzero]

/-- The two calls that select files leave what they set when no piece with a deadline is to get
    another priority than the lowest. -/
theorem reselected_iff (refit : List Priority → (Int → Priority) → Int → Priority)
    (e : PieceState) (handle : Handle) (hlayout : info.Contiguous) {op : Choice} {value' : Job}
    (hwanted : DesiresWanted info value')
    (hpieces : value'.piecePriorities = derivedPieces info value'.filePriorities) :
    Reselected info op value' (e.run refit
        (selectionCommands handle value'.filePriorities value'.piecePriorities)) ↔
      ∀ p < info.numPieces, e.deadline p ≠ none →
        value'.piecePriorities[p]? = some lowPriority := by
  have hiff := PieceState.run_selectionCommands_iff refit e handle value'.filePriorities
    value'.piecePriorities
  have hlength : value'.piecePriorities.length = info.numPieces := by
    rw [hpieces, derivedPieces_length]
  rw [hlength] at hiff
  rw [← hiff]
  constructor
  · exact Reselected.priority
  · intro hpriority
    refine ⟨hpriority, fun _ p hp hnone => ?_,
      (PieceState.run_selectionCommands refit e handle _ _).2⟩
    have hzero : value'.piecePriorities[p]? = some dontDownload := by
      rw [hpieces]
      exact derivedPieces_unselected hlayout hwanted hp hnone
    exact Option.some.inj ((hpriority p hp).symm.trans hzero)

/-- After a successful call that sets all pieces of a torrent, libtorrent holds the priorities
    of the job and no deadline exactly when no piece with a deadline was disturbed. -/
theorem reselect_iff {s s' : Session} {env : Environment} {value value' : Job} {op : Choice}
    {response : Response} (refit : List Priority → (Int → Priority) → Int → Priority)
    (e : PieceState) (hlayout : info.Contiguous) (hvalue : s.jobs.lookup id = some value)
    (hinfo : env.torrentFile value.handle = some info)
    (h : s.enter env (op.api id) = some (s', some response)) (hok : response.code = .ok)
    (hvalue' : s'.jobs.lookup id = some value') :
    Reselected info op value' (heldPieces refit e value.handle s') ↔
      op.Undisturbed info (env.getFilePriorities value.handle) value
        (heldPieces refit e value.handle s) := by
  obtain ⟨value₁, new, hvalue₁, hhandle, htrace, heffect⟩ := Session.enter_choice hvalue hinfo h hok
  obtain rfl := Option.some.inj (hvalue'.symm.trans hvalue₁)
  have hheld : heldPieces refit e value.handle s' =
      (heldPieces refit e value.handle s).run refit (commandsTo value.handle new) := by
    unfold heldPieces
    rw [htrace, ← PieceState.run_append]
    congr 1
    exact List.filterMap_append
  rw [hheld]
  generalize heldPieces refit e value.handle s = held
  generalize commandsTo value.handle new = commands at heffect
  cases heffect with
  | selectFiles hvalues hwanted hpieces =>
      rw [reselected_iff refit held value.handle hlayout hwanted hpieces, hpieces]
      apply forall₂_congr
      intro p hp
      -- no piece gets the lowest priority
      have hne : (derivedPieces info value'.filePriorities)[p]? ≠ some lowPriority := by
        intro hlow
        obtain ⟨a, ha, hgreatest⟩ := derivedPieces_greatest hlayout value'.filePriorities hp
        obtain rfl := Option.some.inj (hlow.symm.trans ha)
        rcases hgreatest.1 with hzero | ⟨i, file, _, hpriority, _⟩
        · cases hzero
        · rcases hvalues _ (List.mem_of_getElem? hpriority) with hzero | hdefault
          · cases hzero
          · cases hdefault
      constructor
      · intro hlow
        by_contra hdeadline
        exact hne (hlow hdeadline)
      · intro hnone hdeadline
        exact absurd hnone hdeadline
  | setFilePriority hfiles hwanted hpieces =>
      rw [reselected_iff refit held value.handle hlayout hwanted hpieces, hpieces]
      apply forall₂_congr
      intro p hp
      obtain ⟨a, ha, hgreatest⟩ := derivedPieces_greatest hlayout value'.filePriorities hp
      rw [ha, ← hfiles]
      apply imp_congr_right
      intro _
      constructor
      · intro hlow
        obtain rfl := Option.some.inj hlow
        exact hgreatest
      · intro hlow
        rw [hgreatest.unique hlow]
  | clearStreamingWindow hlength =>
      refine iff_of_true ⟨fun p hp => ?_, fun hne => absurd rfl hne, fun p => ?_⟩ trivial
      · rw [PieceState.run_cons]
        refine (PieceState.run_selectionCommands_iff refit _ value.handle value'.filePriorities
          value'.piecePriorities).mpr (fun _ _ hdeadline => absurd rfl hdeadline) p ?_
        rw [hlength]
        exact hp
      · rw [PieceState.run_cons]
        exact (PieceState.run_selectionCommands refit _ value.handle _ _).2 p

end

/-! ## The file is selected again under its window -/

theorem sampleInfo_contiguous : sampleInfo.Contiguous where
  length := by decide
  size := by decide
  offset := by
    intro i file hfile
    match i with
    | 0 => obtain rfl := Option.some.inj hfile; rfl
    | i + 1 => cases hfile
  total := rfl
  pieces := rfl

/-- The session after a torrent was added and its window placed, and some calls. -/
def windowAfter (calls : List Api) : Session :=
  sessionAfter sampleEnvironment
    (.add sampleRequest :: .updateStreamingWindow "a" 0 0 1 1 1 false :: calls)

def windowJob : Job where
  handle := 1
  desiredFiles := [0]
  filePriorities := [4]
  piecePriorities := [4]
  primaryFile := 0
  metadataReady := true
  deadlinePieces := {0}

/-- What libtorrent holds then, when it held no priorities before. -/
def windowPieces (calls : List Api) : PieceState :=
  heldPieces sampleRefit { priority := fun _ => dontDownload } 1 (windowAfter calls)

theorem windowAfter_job : (windowAfter []).jobs.lookup "a" = some windowJob := by decide +kernel

theorem windowAfter_answers {calls : List Api} {api : Api}
    (h : ((windowAfter calls).enter sampleEnvironment api).any
      (fun r => decide (r.2.map Response.code = some .ok)) = true) :
    ∃ response, (windowAfter calls).enter sampleEnvironment api =
      some (windowAfter (calls ++ [api]), some response) ∧ response.code = .ok :=
  sessionAfter_answers h

/-- A window that is cleared leaves the priorities of the job. -/
theorem window_cleared :
    Reselected sampleInfo .clearStreamingWindow { windowJob with deadlinePieces := ∅ }
      (windowPieces [.clearStreamingWindow "a"]) := by
  obtain ⟨response, hr, hok⟩ :=
    @windowAfter_answers [] (.clearStreamingWindow "a") (by decide +kernel)
  exact (@reselect_iff sampleInfo "a" _ _ _ windowJob _ .clearStreamingWindow _ sampleRefit
    { priority := fun _ => dontDownload } sampleInfo_contiguous windowAfter_job rfl hr hok
    (by decide +kernel)).mpr trivial

/-- When the file is selected again under its window, its piece is left at the lowest priority:
    the job and libtorrent disagree. -/
theorem window_disturbed :
    (∃ response, (windowAfter []).enter sampleEnvironment (.selectFiles "a" [0] 0) =
        some (windowAfter [.selectFiles "a" [0] 0], some response) ∧ response.code = .ok) ∧
    ∃ value', (windowAfter [.selectFiles "a" [0] 0]).jobs.lookup "a" = some value' ∧
      value'.piecePriorities = [4] ∧
      (windowPieces [.selectFiles "a" [0] 0]).priority 0 = lowPriority ∧
      ¬ Reselected sampleInfo (.selectFiles [0] 0) value'
        (windowPieces [.selectFiles "a" [0] 0]) := by
  have hlow : (windowPieces [.selectFiles "a" [0] 0]).priority 0 = lowPriority := by
    decide +kernel
  refine ⟨@windowAfter_answers [] (.selectFiles "a" [0] 0) (by decide +kernel),
    { windowJob with deadlinePieces := ∅ }, by decide +kernel, rfl, hlow, fun h => ?_⟩
  have hpriority := h.priority 0 (by decide)
  rw [show ((0 : Nat) : Int) = 0 from rfl, hlow] at hpriority
  revert hpriority
  decide +kernel

end LibtorrentKit
