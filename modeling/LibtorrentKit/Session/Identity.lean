/-
  Which torrent an add with resume data is for.

  The resume data replace the parameters of the source; only metadata in the source win over
  those in the resume data, and the hashes of the source count only when the resume data have
  none. Nothing compares the two.

  `add_keeps_identity_iff`: the torrent that libtorrent is asked for is that of the source, and
  resume data of another torrent are refused, exactly when the resume data are of the torrent
  of the source.
-/
import LibtorrentKit.Session.Adding

namespace LibtorrentKit

/-- The hashes `a` are among the hashes `b`. -/
def InfoHashes.within (a b : InfoHashes) : Bool :=
  (a.v1.isNone || a.v1 == b.v1) && (a.v2.isNone || a.v2 == b.v2)

theorem InfoHashes.within_refl (a : InfoHashes) : a.within a = true := by
  simp [InfoHashes.within]

/-- The hashes under which resume data name a torrent: those of their metadata, and their own
    if they have any. -/
def AddTorrentParams.names (restored : AddTorrentParams) : List InfoHashes :=
  restored.ti.toList.map (·.infoHashes)
    ++ (if restored.infoHashes.v1.isNone ∧ restored.infoHashes.v2.isNone then []
      else [restored.infoHashes])

/-- The resume data are of another torrent than that of `hashes`. -/
def AddTorrentParams.foreignTo (restored : AddTorrentParams) (hashes : InfoHashes) : Bool :=
  restored.names.any fun named => !named.matches hashes

/-- The resume data of an add, as libtorrent reads them. -/
def restoredParams (env : Environment) (r : AddRequest) : Option AddTorrentParams :=
  if r.resumeData.isEmpty then none else env.readResumeData r.resumeData

/-- The resume data cannot change which torrent is added: libtorrent is asked for `params`
    under every hash of the source, and resume data of another torrent are refused. -/
structure KeepsIdentity (source : AddTorrentParams) (restored : Option AddTorrentParams)
    (params : AddTorrentParams) (code : Code) : Prop where
  carries : source.identity.within params.identity = true
  refuses : ∀ p ∈ restored, p.foreignTo source.identity = true → code = .corruptResumeData

/-- The resume data are of the torrent of the source: each name of it that they have shares a
    hash with the source, and the first has every hash of a source without metadata. -/
def OwnResume (source : AddTorrentParams) (restored : Option AddTorrentParams) : Prop :=
  ∀ p ∈ restored, p.foreignTo source.identity = false ∧
    (source.ti = none → ∀ named ∈ p.names.head?, source.identity.within named = true)

namespace Session

/-- The hashes of the merged parameters: the metadata of the source decide, else what the
    resume data name first. -/
theorem mergeResume_identity (source restored : AddTorrentParams) :
    (mergeResume source restored).identity =
      match source.ti with
      | some info => info.infoHashes
      | none => restored.names.head?.getD source.infoHashes := by
  unfold mergeResume AddTorrentParams.identity AddTorrentParams.names
  cases source.ti with
  | some info => rfl
  | none =>
      cases restored.ti with
      | some info => rfl
      | none =>
          by_cases hnone : restored.infoHashes.v1 = none ∧ restored.infoHashes.v2 = none
          · simp [hnone]
          · simp [if_neg hnone]

/-- The source is carried exactly when a source without metadata is within what the resume data
    name first. -/
theorem carries_mergeResume_iff (source restored : AddTorrentParams) :
    source.identity.within (mergeResume source restored).identity = true ↔
      (source.ti = none → ∀ named ∈ restored.names.head?, source.identity.within named = true) := by
  rw [mergeResume_identity]
  cases hti : source.ti with
  | some info =>
      have hself : source.identity = info.infoHashes := by
        simp only [AddTorrentParams.identity, hti]
      simp [hself, InfoHashes.within_refl]
  | none =>
      have hself : source.identity = source.infoHashes := by
        simp only [AddTorrentParams.identity, hti]
      cases restored.names.head? with
      | none => simp [hself, InfoHashes.within_refl]
      | some named => simp

/-- An add that reaches libtorrent does not end with the code for corrupt resume data. -/
theorem add_code_of_target {s t : Session} {env : Environment} {r : AddRequest}
    {params : AddTorrentParams} {response : Response} (htarget : s.addTarget env r = some params)
    (hadd : s.ltkitSessionAdd env r = some (t, response)) : response.code ≠ .corruptResumeData := by
  obtain ⟨read, _, _, _, heq⟩ := add_of_target htarget
  rw [heq] at hadd
  split at hadd
  · obtain rfl := (Prod.ext_iff.mp (Option.some.inj hadd)).2
    exact fun h => by cases h
  · obtain ⟨t', _, ht'⟩ := Option.map_eq_some_iff.mp hadd
    obtain rfl := (Prod.ext_iff.mp ht').2
    exact fun h => by cases h

/-- What libtorrent is asked for is named as the parameters that the add has read. -/
theorem addTarget_identity {s : Session} {env : Environment} {r : AddRequest}
    {source params : AddTorrentParams} (hsource : sourceParams env r = some source)
    (htarget : s.addTarget env r = some params) :
    params.identity =
      ((restoredParams env r).elim source (mergeResume source)).identity := by
  obtain ⟨read, hread, _, hparams, _⟩ := add_of_target htarget
  have hidentity : params.identity = read.identity := by
    rw [hparams]
    rfl
  obtain ⟨source', hsource', h⟩ := addParams_cases hread
  obtain rfl := Option.some.inj (hsource.symm.trans hsource')
  rw [hidentity]
  rcases h with ⟨hempty, rfl⟩ | ⟨restored, hresume, hrestored, rfl⟩
  · simp [restoredParams, hempty]
  · simp [restoredParams, hresume, hrestored]

/-- An add that reaches libtorrent keeps the identity of its source exactly when its resume data
    are of the same torrent. -/
theorem add_keeps_identity_iff {s t : Session} {env : Environment} {r : AddRequest}
    {source params : AddTorrentParams} {response : Response}
    (hsource : sourceParams env r = some source) (htarget : s.addTarget env r = some params)
    (hadd : s.ltkitSessionAdd env r = some (t, response)) :
    KeepsIdentity source (restoredParams env r) params response.code ↔
      OwnResume source (restoredParams env r) := by
  have hcode := add_code_of_target htarget hadd
  have hidentity := addTarget_identity hsource htarget
  cases hrestored : restoredParams env r with
  | none =>
      rw [hrestored] at hidentity
      refine ⟨fun _ p hp => by simp at hp, fun _ => ⟨?_, fun p hp => by simp at hp⟩⟩
      rw [hidentity]
      exact InfoHashes.within_refl _
  | some restored =>
      rw [hrestored, Option.elim_some] at hidentity
      have hcarries := carries_mergeResume_iff source restored
      rw [← hidentity] at hcarries
      constructor
      · intro h p hp
        obtain rfl := Option.some.inj hp
        refine ⟨?_, hcarries.mp h.carries⟩
        -- a foreign blob would have been refused, but this add has reached libtorrent
        by_contra hforeign
        exact hcode (h.refuses restored rfl (Bool.eq_true_of_not_eq_false hforeign))
      · intro h
        obtain ⟨hown, hwithin⟩ := h restored rfl
        refine ⟨hcarries.mpr hwithin, fun p hp hforeign => ?_⟩
        obtain rfl := Option.some.inj hp
        simp [hown] at hforeign

/-! ## Resume data of this torrent and of another -/

/-- A magnet link of the hash `aa`, with resume data. -/
def restoringRequest : AddRequest where
  identifier := "a"
  sourceKind := 0
  source := [100]
  resumeData := [1]
  downloadDirectory := "/d"

/-- libtorrent reads the resume data as those of a torrent with the hash `hash`. -/
def restoringEnvironment (hash : String) : Environment :=
  { sampleEnvironment with
    torrentFile := fun _ => none
    readResumeData := fun _ => some { infoHashes := { v1 := some hash } } }

/-- What the add of `restoringRequest` asks libtorrent for. -/
def restoringTarget (hash : String) : AddTorrentParams :=
  withSettings restoringRequest { infoHashes := { v1 := some hash } }

/-- Resume data of `aa` keep the identity. -/
theorem ownResume_keeps_identity :
    ∃ t response, ltkitSessionAdd {} (restoringEnvironment "aa") restoringRequest =
        some (t, response) ∧
      KeepsIdentity { infoHashes := { v1 := some "aa" } }
        (restoredParams (restoringEnvironment "aa") restoringRequest) (restoringTarget "aa")
        response.code := by
  refine ⟨_, _, rfl, (add_keeps_identity_iff (s := {}) (t := _) rfl ?_ rfl).mpr ?_⟩
  · decide +kernel
  · intro p hp
    obtain rfl := Option.some.inj hp
    decide

/-- Resume data of `bb` replace `aa`, and the add succeeds. -/
theorem foreignResume_replaces_source :
    ∃ t, sourceParams (restoringEnvironment "bb") restoringRequest =
        some { infoHashes := { v1 := some "aa" } } ∧
      addTarget {} (restoringEnvironment "bb") restoringRequest = some (restoringTarget "bb") ∧
      ltkitSessionAdd {} (restoringEnvironment "bb") restoringRequest = some (t, { code := .ok }) ∧
      ¬ KeepsIdentity { infoHashes := { v1 := some "aa" } }
        (restoredParams (restoringEnvironment "bb") restoringRequest) (restoringTarget "bb")
        .ok := by
  refine ⟨_, rfl, by decide +kernel, rfl, fun h => ?_⟩
  have hcarries := h.carries
  revert hcarries
  decide

end Session

end LibtorrentKit
