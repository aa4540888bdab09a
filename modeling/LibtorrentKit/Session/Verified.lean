/-
  What `refresh_selected_payloads` establishes when it succeeds.

  `FilesVerified` is the meaning of its result: each desired file that is no padding is
  complete, has a safe path, and its copy on disk was opened, found regular and long enough,
  synced and closed.
-/
import LibtorrentKit.Session.Checkpoint

namespace LibtorrentKit

/-- The copy on disk holds `size` bytes and they have reached the medium. -/
structure PayloadFile.Synced (f : PayloadFile) (size : Int) : Prop where
  opens : f.opens = true
  fstatOk : f.fstatOk = true
  regular : f.regular = true
  size : size ≤ f.size
  fsyncOk : f.fsyncOk = true
  closeOk : f.closeOk = true

theorem syncPayload_eq_true {disk : String → PayloadFile} {ready : Bool} {file : SelectedPayload} :
    syncPayload disk ready file = true ↔ ready = true ∧ (disk file.path).Synced file.size := by
  constructor
  · intro h
    unfold syncPayload at h
    dsimp only at h
    split at h
    · cases h
    · next hopen =>
        split at h
        · cases h
        · next hclose =>
            split at h
            · cases h
            · next hvalid =>
                simp only [Bool.or_eq_true, Bool.not_eq_eq_eq_not, Bool.not_true, not_or,
                  Bool.not_eq_false, Bool.and_eq_true, decide_eq_true_eq] at hvalid hopen hclose
                obtain ⟨⟨⟨hstat, hregular⟩, hsize⟩, hsync⟩ := hvalid
                exact ⟨h, hopen, hstat, hregular, hsize, hsync, hclose⟩
  · rintro ⟨hready, hopen, hstat, hregular, hsize, hsync, hclose⟩
    simp [syncPayload, hready, hopen, hstat, hregular, hsize, hsync, hclose]

theorem foldl_syncPayload {disk : String → PayloadFile} {ready : Bool}
    {files : List SelectedPayload} (h : files.foldl (syncPayload disk) ready = true) :
    ready = true ∧ ∀ file ∈ files, (disk file.path).Synced file.size := by
  induction files generalizing ready with
  | nil => exact ⟨h, fun file hf => by cases hf⟩
  | cons file files ih =>
      obtain ⟨hready, hrest⟩ := ih h
      obtain ⟨hr, hfile⟩ := syncPayload_eq_true.mp hready
      refine ⟨hr, fun x hx => ?_⟩
      rcases List.mem_cons.mp hx with rfl | hx
      · exact hfile
      · exact hrest x hx

theorem syncSelectedPayloads_synced {disk : String → PayloadFile} {files : List SelectedPayload}
    (h : syncSelectedPayloads disk files = true) :
    ∀ file ∈ files, (disk file.path).Synced file.size := by
  unfold syncSelectedPayloads at h
  split at h
  · cases h
  · exact (foldl_syncPayload h).2

/-- The desired file `index` is padding, or complete under a safe path and listed in
    `payloads`. -/
def Gathered (info : TorrentInfo) (savePath : String) (progress : List Int)
    (payloads : List SelectedPayload) (index : Int) : Prop :=
  0 ≤ index ∧ ∃ file, info.layout[index.toNat]? = some file ∧ (file.padFile = false →
    ∃ path complete, safeRelativePath file = some path ∧ progress[index.toNat]? = some complete ∧
      file.size ≤ complete ∧ ⟨joinPath savePath path, file.size⟩ ∈ payloads)

theorem refreshLoop_subset {info : TorrentInfo} {savePath : String} {progress : List Int}
    {payloads : List SelectedPayload} {desired : List Int} {file : SelectedPayload}
    (hf : file ∈ payloads) :
    file ∈ (refreshLoop info savePath progress payloads desired).1 := by
  induction desired generalizing payloads with
  | nil => exact hf
  | cons index rest ih =>
      unfold refreshLoop
      split
      · exact hf
      · split
        · exact ih hf
        · split
          · split
            · exact hf
            · exact ih (List.mem_append_left _ hf)
          · exact hf

theorem refreshLoop_gathered {info : TorrentInfo} {savePath : String} {progress : List Int}
    {payloads : List SelectedPayload} {desired : List Int}
    (h : (refreshLoop info savePath progress payloads desired).2 = true) :
    ∀ index ∈ desired, Gathered info savePath progress
      (refreshLoop info savePath progress payloads desired).1 index := by
  induction desired generalizing payloads with
  | nil => simp
  | cons index rest ih =>
      unfold refreshLoop at h ⊢
      split at h
      · cases h
      · next file hfile =>
          obtain ⟨hindex, hlayout⟩ : 0 ≤ index ∧ info.layout[index.toNat]? = some file := by
            split at hfile
            · cases hfile
            · exact ⟨by omega, hfile⟩
          split at h
          · next hpad =>
              rw [if_pos hpad]
              intro i hi
              rcases List.mem_cons.mp hi with rfl | hi
              · exact ⟨hindex, file, hlayout, fun hp => by simp [hpad] at hp⟩
              · exact ih h i hi
          · next hpad =>
              rw [if_neg hpad]
              split at h
              · next path complete hpath hcomplete =>
                  split at h
                  · cases h
                  · next hle =>
                      rw [if_neg hle]
                      intro i hi
                      rcases List.mem_cons.mp hi with rfl | hi
                      · refine ⟨hindex, file, hlayout, fun _ => ⟨path, complete, hpath, hcomplete,
                          by omega, refreshLoop_subset ?_⟩⟩
                        exact List.mem_append_right _ (List.mem_singleton_self _)
                      · exact ih h i hi
              · cases h

/-- What libtorrent and the disk say about the desired files of the torrent `h`. -/
def FilesVerified (env : Environment) (h : Handle) (desired : List Int) : Prop :=
  ∃ info, env.torrentFile h = some info ∧ ∀ index ∈ desired, 0 ≤ index ∧
    ∃ file, info.layout[index.toNat]? = some file ∧ (file.padFile = false →
      ∃ path complete, safeRelativePath file = some path ∧
        (env.fileProgress h)[index.toNat]? = some complete ∧ file.size ≤ complete ∧
        (env.disk (joinPath (env.status h).savePath path)).Synced file.size)

theorem refreshSelectedPayloads_verified {env : Environment} {value : Job}
    (h : (refreshSelectedPayloads env value).2 = true) :
    FilesVerified env value.handle value.desiredFiles := by
  unfold refreshSelectedPayloads at h
  split at h
  · cases h
  · next info hinfo =>
      simp only [Bool.and_eq_true] at h
      obtain ⟨hloop, hsync⟩ := h
      have hgathered := refreshLoop_gathered hloop
      have hsynced := syncSelectedPayloads_synced hsync
      refine ⟨info, hinfo, fun index hi => ?_⟩
      obtain ⟨hindex, file, hlayout, hfile⟩ := hgathered index hi
      refine ⟨hindex, file, hlayout, fun hp => ?_⟩
      obtain ⟨path, complete, hpath, hcomplete, hle, hmem⟩ := hfile hp
      exact ⟨path, complete, hpath, hcomplete, hle, hsynced _ hmem⟩

end LibtorrentKit
