/-
  The files that an add with an explicit selection wants.

  The wanted files are held three times: in the file priorities handed to libtorrent, in
  `desired_files`, and in the file priorities of the job. An add whose metadata are known sets
  the first from the second; `apply_selection`, when the metadata of a magnet link arrive, does
  so only when the job has no file priorities of the right length.

  `selection_authoritative_iff`: the files wanted are the requested ones exactly when the
  priorities that came with the source or the resume data do not decide.
-/
import LibtorrentKit.Session.Adding

namespace LibtorrentKit

/-- File `i` has a priority other than `dont_download`. -/
def wants (priorities : List Priority) (i : Nat) : Bool :=
  (priorities[i]?).any (· ≠ dontDownload)

/-- The files wanted among `count`, and the desired files, are the requested ones. -/
structure Selected (requested : List Int) (count : Nat) (priorities : List Priority)
    (desired : List Int) : Prop where
  wanted : ∀ i < count, wants priorities i = true ↔ (i : Int) ∈ requested
  desired : ∀ i, i ∈ desired ↔ i ∈ requested

theorem wants_replicate (count i : Nat) :
    wants (List.replicate count dontDownload) i = false := by
  unfold wants
  rw [List.getElem?_replicate]
  split <;> rfl

theorem wants_lt {priorities : List Priority} {i : Nat} (h : wants priorities i = true) :
    i < priorities.length := by
  unfold wants at h
  by_contra hi
  simp [List.getElem?_eq_none (Nat.le_of_not_lt hi)] at h

/-- No file is wanted. -/
theorem not_wants_iff {priorities : List Priority} :
    (∀ i, wants priorities i = false) ↔ ∀ p ∈ priorities, p = dontDownload := by
  constructor
  · intro h p hp
    obtain ⟨i, hi⟩ := List.mem_iff_getElem?.mp hp
    have hw := h i
    simp only [wants, hi, Option.any_some] at hw
    simpa using hw
  · intro h i
    unfold wants
    cases hi : priorities[i]? with
    | none => rfl
    | some p => simp [h p (List.mem_of_getElem? hi)]

/-! ## `fillDesired` -/

/-- One desired file gets the default priority. -/
theorem wants_set {priorities : List Priority} {k : Nat} (hk : k < priorities.length) (i : Nat) :
    wants (priorities.set k defaultPriority) i = true ↔ i = k ∨ wants priorities i = true := by
  unfold wants
  by_cases hi : i = k
  · subst hi
    rw [List.getElem?_set_self hk]
    simp [defaultPriority, dontDownload]
  · rw [List.getElem?_set_ne (Ne.symm hi)]
    simp [hi]

/-- When all desired files exist, they are wanted besides those wanted before. -/
theorem wants_fillDesired {count : Nat} {priorities out : List Priority} {desired : List Int}
    (hlength : priorities.length = count) (h : fillDesired count priorities desired = (out, true))
    (i : Nat) : wants out i = true ↔ (i : Int) ∈ desired ∨ wants priorities i = true := by
  induction desired generalizing priorities with
  | nil =>
      obtain rfl : priorities = out := (Prod.ext_iff.mp h).1
      simp
  | cons index rest ih =>
      unfold fillDesired at h
      split at h
      · exact absurd (Prod.ext_iff.mp h).2 (by simp)
      · next hrange =>
          have hk : index.toNat < priorities.length := by omega
          rw [ih (by simp [hlength]) h, wants_set hk, List.mem_cons, or_left_comm, or_assoc]
          have hindex : i = index.toNat ↔ (i : Int) = index := by omega
          rw [hindex]

/-- It succeeds exactly when all desired files exist. -/
theorem fillDesired_ok_iff {count : Nat} {priorities : List Priority} {desired : List Int} :
    (fillDesired count priorities desired).2 = true ↔
      ∀ i ∈ desired, 0 ≤ i ∧ i < (count : Int) := by
  induction desired generalizing priorities with
  | nil => simp [fillDesired]
  | cons index rest ih =>
      unfold fillDesired
      split
      · next hrange =>
          simp only [Bool.false_eq_true, List.mem_cons, forall_eq_or_imp, false_iff]
          omega
      · next hrange =>
          rw [ih, List.forall_mem_cons]
          exact (and_iff_right (by omega)).symm

/-- The priorities that `fillDesired` makes of the desired files alone. -/
theorem wants_filled {count : Nat} {out : List Priority} {desired : List Int}
    (h : fillDesired count (List.replicate count dontDownload) desired = (out, true)) (i : Nat) :
    wants out i = true ↔ (i : Int) ∈ desired := by
  rw [wants_fillDesired List.length_replicate h, wants_replicate]
  simp

/-! ## The desired files of an add -/

namespace Session

/-- Without a request the wanted files are the desired ones. -/
theorem desiredFiles_of_empty {r : AddRequest} {params : AddTorrentParams}
    (h : r.selectedFiles = []) (i : Int) :
    i ∈ desiredFiles r params ↔ ∃ n : Nat, (n : Int) = i ∧ wants params.filePriorities n = true := by
  unfold desiredFiles
  rw [if_neg (by simp [h])]
  simp only [List.mem_map, List.mem_filter, List.mem_range]
  constructor
  · rintro ⟨n, ⟨_, hn⟩, rfl⟩
    exact ⟨n, rfl, hn⟩
  · rintro ⟨n, rfl, hn⟩
    exact ⟨n, ⟨wants_lt hn, hn⟩, rfl⟩

theorem desiredFiles_of_request {r : AddRequest} {params : AddTorrentParams}
    (hselection : r.hasFileSelection = true) (h : r.selectedFiles ≠ []) :
    desiredFiles r params = r.selectedFiles := by
  unfold desiredFiles
  rw [if_pos ⟨hselection, h⟩]

/-- The desired files are the requested ones unless an empty request is filled from the
    priorities in the parameters. -/
theorem desiredFiles_iff {r : AddRequest} {params : AddTorrentParams}
    (hselection : r.hasFileSelection = true) :
    (∀ i, i ∈ desiredFiles r params ↔ i ∈ r.selectedFiles) ↔
      (r.selectedFiles = [] → ∀ p ∈ params.filePriorities, p = dontDownload) := by
  by_cases h : r.selectedFiles = []
  · rw [← not_wants_iff]
    simp only [desiredFiles_of_empty h, h, List.not_mem_nil, iff_false, not_exists, not_and,
      forall_const]
    constructor
    · intro hno i
      exact Bool.eq_false_iff.mpr (hno i i rfl)
    · rintro hno _ i rfl
      exact Bool.eq_false_iff.mp (hno i)
  · simp [desiredFiles_of_request hselection h, h]

/-! ## The selection of an add whose metadata are known -/

/-- With metadata the files wanted are the desired ones. -/
theorem wants_addPriorities {r : AddRequest} {params : AddTorrentParams} {info : TorrentInfo}
    {desired : List Int} {priorities : List Priority} (hselection : r.hasFileSelection = true)
    (hti : params.ti = some info) (h : addPriorities r params desired = some priorities) (i : Nat) :
    wants priorities i = true ↔ (i : Int) ∈ desired := by
  unfold addPriorities at h
  rw [hti, hselection] at h
  dsimp only at h
  split at h
  · next out hfill =>
      obtain rfl := Option.some.inj h
      exact wants_filled hfill i
  · cases h

theorem addPriorities_of_magnet {r : AddRequest} {params : AddTorrentParams} {desired : List Int}
    (hti : params.ti = none) : addPriorities r params desired = some params.filePriorities := by
  unfold addPriorities
  rw [hti]

end Session

/-! ## The selection of a magnet link when its metadata arrive -/

/-- The alert that metadata have arrived hands libtorrent file priorities, and these and the
    desired files are the requested ones. -/
def SelectedOnMetadata (env : Environment) (id : String) (value : Job) (requested : List Int)
    (count : Nat) : Prop :=
  ∃ files, .command (.prioritizeFiles value.handle files) ∈
      (onAlert env id value ⟨value.handle, .metadataReceived⟩).2 ∧
    Selected requested count files
      (onAlert env id value ⟨value.handle, .metadataReceived⟩).1.desiredFiles

/-- The file priorities that libtorrent is handed are those of `apply_selection`. -/
theorem selectedOnMetadata_iff {env : Environment} {id : String} {value : Job}
    {requested : List Int} {count : Nat} {info : TorrentInfo}
    (hinfo : env.torrentFile value.handle = some info) :
    SelectedOnMetadata env id value requested count ↔
      ∃ files, selectedFiles info value = (files, true) ∧
        Selected requested count files value.desiredFiles := by
  rcases hselected : selectedFiles info value with ⟨files, ok⟩
  have hready : selectedFiles info { value with metadataReady := true } = (files, ok) := hselected
  unfold SelectedOnMetadata onAlert
  cases ok with
  | false =>
      have happly := applySelection_failed env { value with metadataReady := true } hinfo hready
      simp [happly]
  | true =>
      have happly := applySelection_ok env { value with metadataReady := true } hinfo hready
      simp [happly]

/-- The wanted files of `apply_selection` are the requested ones exactly when the desired files
    are, and file priorities of the right length want no other files. -/
theorem selectedFiles_iff {info : TorrentInfo} {value : Job} {requested : List Int}
    (hvalid : ∀ i ∈ requested, 0 ≤ i ∧ i < (info.layout.length : Int)) :
    (∃ files, selectedFiles info value = (files, true) ∧
        Selected requested info.layout.length files value.desiredFiles) ↔
      (∀ i, i ∈ value.desiredFiles ↔ i ∈ requested) ∧
        (value.filePriorities.length = info.layout.length → ∀ i < info.layout.length,
          wants value.filePriorities i = true ↔ (i : Int) ∈ requested) := by
  unfold selectedFiles
  dsimp only
  split
  · next hlength =>
      constructor
      · rintro ⟨files, _, hselected⟩
        exact ⟨hselected.desired, fun h => absurd h hlength⟩
      · rintro ⟨hdesired, _⟩
        have hok : (fillDesired info.layout.length
            (List.replicate info.layout.length dontDownload) value.desiredFiles).2 = true :=
          fillDesired_ok_iff.mpr fun i hi => hvalid i ((hdesired i).mp hi)
        refine ⟨_, Prod.ext rfl hok, fun i _ => ?_, hdesired⟩
        rw [wants_filled (Prod.ext rfl hok), hdesired]
  · next hlength =>
      constructor
      · rintro ⟨files, heq, hselected⟩
        obtain rfl : value.filePriorities = files := (Prod.ext_iff.mp heq).1
        exact ⟨hselected.desired, fun _ => hselected.wanted⟩
      · rintro ⟨hdesired, hwanted⟩
        exact ⟨_, rfl, hwanted (not_not.mp hlength), hdesired⟩

/-! ## Both kinds of sources -/

/-- The file priorities `read` that came with the source or the resume data do not decide: an
    empty request finds none that wants a file, and a request for a magnet link none for as
    many files as the torrent has, unless they want the requested files. -/
def RequestDecides (r : AddRequest) (read : AddTorrentParams) (count : Nat) : Prop :=
  (r.selectedFiles = [] → ∀ p ∈ read.filePriorities, p = dontDownload) ∧
    (r.selectedFiles ≠ [] → read.ti = none → read.filePriorities.length = count →
      ∀ i < count, wants read.filePriorities i = true ↔ (i : Int) ∈ r.selectedFiles)

namespace Session

/-- An explicit selection is authoritative exactly when the file priorities that came with the
    source or the resume data do not decide: for a torrent whose metadata the add knows, and
    for a magnet link whose job still has the selection of its add when the metadata arrive. -/
theorem selection_authoritative_iff {s t : Session} {env : Environment} {r : AddRequest}
    {read params : AddTorrentParams} {job : Job} (hselection : r.hasFileSelection = true)
    (hread : addParams env r = .ok read) (htarget : s.addTarget env r = some params)
    (hadd : s.ltkitSessionAdd env r = some (t, { code := .ok }))
    (hjob : t.jobs.lookup r.identifier = some job) :
    (∀ info, read.ti = some info → (Selected r.selectedFiles info.layout.length
        params.filePriorities job.desiredFiles ↔ RequestDecides r read info.layout.length)) ∧
    (read.ti = none → ∀ (env' : Environment) (id : String) (value : Job) (info : TorrentInfo),
      env'.torrentFile value.handle = some info → value.desiredFiles = job.desiredFiles →
      value.filePriorities = job.filePriorities →
      (∀ i ∈ r.selectedFiles, 0 ≤ i ∧ i < (info.layout.length : Int)) →
      (SelectedOnMetadata env' id value r.selectedFiles info.layout.length ↔
        RequestDecides r read info.layout.length)) := by
  obtain ⟨hpriorities, hfiles, hdesired, _⟩ := add_job hread htarget hadd hjob
  have hrequest : (∀ i, i ∈ job.desiredFiles ↔ i ∈ r.selectedFiles) ↔
      (r.selectedFiles = [] → ∀ p ∈ read.filePriorities, p = dontDownload) := by
    rw [hdesired]
    exact desiredFiles_iff hselection
  constructor
  · intro info hti
    have hknown : (withSettings r read).ti = some info := hti
    have hwanted := wants_addPriorities hselection hknown hpriorities
    rw [← hdesired] at hwanted
    constructor
    · intro hs
      exact ⟨hrequest.mp hs.desired, fun _ hmagnet => by simp [hti] at hmagnet⟩
    · rintro ⟨hempty, _⟩
      have hsame := hrequest.mpr hempty
      exact ⟨fun i _ => (hwanted i).trans (hsame i), hsame⟩
  · intro hti env' id value info hinfo hd hf hvalid
    have hread' : params.filePriorities = read.filePriorities := by
      have hmagnet : (withSettings r read).ti = none := hti
      rw [addPriorities_of_magnet hmagnet] at hpriorities
      exact (Option.some.inj hpriorities).symm
    rw [selectedOnMetadata_iff hinfo, selectedFiles_iff hvalid, hd, hf, hfiles, hread', hrequest]
    constructor
    · rintro ⟨hempty, hsame⟩
      exact ⟨hempty, fun _ _ => hsame⟩
    · rintro ⟨hempty, hsame⟩
      refine ⟨hempty, fun hlength i hi => ?_⟩
      by_cases hr : r.selectedFiles = []
      · have hnone := not_wants_iff.mpr (hempty hr) i
        simp [hr, hnone]
      · exact hsame hr hti hlength i hi

/-! ## A magnet link of two files, added with resume data -/

/-- A torrent with two files in one piece. -/
def pairInfo : TorrentInfo :=
  { sampleInfo with
    totalSize := 16
    layout := [{ path := "f", size := 10, offset := 0 }, { path := "g", size := 6, offset := 10 }] }

/-- The second file of a magnet link, with resume data. -/
def pairRequest : AddRequest where
  identifier := "a"
  sourceKind := 0
  source := [100]
  resumeData := [1]
  downloadDirectory := "/d"
  selectedFiles := [1]
  hasFileSelection := true

/-- The resume data of an earlier run with these file priorities. -/
def pairResume (priorities : List Priority) : AddTorrentParams where
  infoHashes := { v1 := some "aa" }
  filePriorities := priorities

def pairEnvironment (priorities : List Priority) : Environment :=
  { sampleEnvironment with
    torrentFile := fun _ => none
    readResumeData := fun _ => some (pairResume priorities) }

/-- The metadata have arrived. -/
def pairMetadata : Environment := { sampleEnvironment with torrentFile := fun _ => some pairInfo }

def pairJob (priorities : List Priority) : Job where
  handle := 1
  desiredFiles := [1]
  filePriorities := priorities

theorem pairRequest_added (priorities : List Priority) :
    ∃ t, ltkitSessionAdd {} (pairEnvironment priorities) pairRequest = some (t, { code := .ok }) ∧
      t.jobs.lookup "a" = some (pairJob priorities) :=
  ⟨_, rfl, Finmap.lookup_insert _⟩

/-- Resume data that want the second file do no harm. -/
theorem pairRequest_selects :
    SelectedOnMetadata pairMetadata "a" (pairJob [0, 4]) [1] 2 := by
  obtain ⟨t, hadd, hjob⟩ := pairRequest_added [0, 4]
  have htarget : addTarget {} (pairEnvironment [0, 4]) pairRequest =
      some (withSettings pairRequest (pairResume [0, 4])) := by decide +kernel
  have hread : addParams (pairEnvironment [0, 4]) pairRequest = .ok (pairResume [0, 4]) := rfl
  have hall := (selection_authoritative_iff rfl hread htarget hadd hjob).2 rfl pairMetadata "a"
    (pairJob [0, 4]) pairInfo rfl rfl rfl (by decide)
  refine hall.mpr ⟨by decide, fun _ _ _ => by decide⟩

/-- Resume data that want the first file replace the selection of the second. -/
theorem pairRequest_replaced :
    ∃ t job, ltkitSessionAdd {} (pairEnvironment [4, 0]) pairRequest = some (t, { code := .ok }) ∧
      t.jobs.lookup "a" = some job ∧ pairRequest.hasFileSelection = true ∧
      pairMetadata.torrentFile job.handle = some pairInfo ∧
      ¬ SelectedOnMetadata pairMetadata "a" job pairRequest.selectedFiles
        pairInfo.layout.length := by
  obtain ⟨t, hadd, hjob⟩ := pairRequest_added [4, 0]
  refine ⟨t, pairJob [4, 0], hadd, hjob, rfl, rfl, ?_⟩
  rintro ⟨files, hcommand, hselected⟩
  have hfiles : files = [4, 0] := by
    have hactions : (onAlert pairMetadata "a" (pairJob [4, 0]) ⟨1, .metadataReceived⟩).2 =
        [.command (.prioritizeFiles 1 [4, 0]), .command (.prioritizePieces 1 [4]),
          .command (.clearPieceDeadlines 1), .enqueue .metadata (metadataReadyJson "a")] := by
      decide +kernel
    have hmem := hactions ▸ hcommand
    simpa [pairJob] using hmem
  have hfirst := (hselected.wanted 0 (by decide)).mp (by rw [hfiles]; decide)
  revert hfirst
  decide

end Session

end LibtorrentKit
