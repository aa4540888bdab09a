/-
  What `ltkit_session_add` hands to libtorrent.

  `Session.addTarget` are the parameters of an add that reaches `engine->add_torrent`. An add
  that libtorrent accepts inserts a job for them; any other changes nothing but the last error
  (`add_target`).
-/
import LibtorrentKit.Session.Moves

namespace LibtorrentKit

namespace Session

/-- The parameters that the add of `r` hands to libtorrent; `none` when it fails before. -/
def addTarget (s : Session) (env : Environment) (r : AddRequest) : Option AddTorrentParams :=
  if !isValidAdd r || s.shuttingDown || decide (r.identifier ∈ s.jobs)
      || !s.events.canAdd r.identifier || decide (r.downloadDirectory.toList.head? ≠ some '/') then
    none
  else
    match addParams env r with
    | .error _ => none
    | .ok params =>
        let params := withSettings r params
        (addPriorities r params (desiredFiles r params)).map fun priorities =>
          { params with filePriorities := priorities }

theorem addTarget_record (s : Session) (e : Entry) (env : Environment) (r : AddRequest) :
    (s.record e).addTarget env r = s.addTarget env r := rfl

/-- The parameters of an add, as the source and the resume data give them. -/
theorem addTarget_eq {s : Session} {env : Environment} {r : AddRequest} {params : AddTorrentParams}
    (h : s.addTarget env r = some params) :
    ∃ read priorities, addParams env r = .ok read ∧
      addPriorities r (withSettings r read) (desiredFiles r (withSettings r read)) =
        some priorities ∧
      params = { withSettings r read with filePriorities := priorities } := by
  unfold addTarget at h
  split at h
  · cases h
  · split at h
    · cases h
    · next read hread =>
        obtain ⟨priorities, hp, rfl⟩ := Option.map_eq_some_iff.mp h
        exact ⟨read, priorities, hread, hp, rfl⟩

/-- The parameters in the source alone. -/
def sourceParams (env : Environment) (r : AddRequest) : Option AddTorrentParams :=
  if r.sourceKind = 0 then env.parseMagnetUri r.source
  else if r.sourceKind = 1 then env.loadTorrentBuffer r.source
  else none

/-- The resume data `restored`, merged with the parameters of the source. -/
def mergeResume (source restored : AddTorrentParams) : AddTorrentParams :=
  { restored with
    ti := source.ti <|> restored.ti
    infoHashes :=
      if restored.infoHashes.v1.isNone ∧ restored.infoHashes.v2.isNone then source.infoHashes
      else restored.infoHashes }

/-- Where the parameters of an add come from. -/
theorem addParams_cases {env : Environment} {r : AddRequest} {read : AddTorrentParams}
    (h : addParams env r = .ok read) :
    ∃ source, sourceParams env r = some source ∧
      (r.resumeData = [] ∧ read = source ∨
        ∃ restored, r.resumeData ≠ [] ∧ env.readResumeData r.resumeData = some restored ∧
          read = mergeResume source restored) := by
  unfold addParams at h
  split at h
  · cases h
  · next hkind =>
      split at h
      · cases h
      · next source hsource =>
          have hsource' : sourceParams env r = some source := by
            unfold sourceParams
            split
            · next h0 => rwa [if_pos h0] at hsource
            · next h0 =>
                have h1 : r.sourceKind = 1 := by
                  by_contra h1
                  exact hkind ⟨h0, h1⟩
                rw [if_pos h1]
                rwa [if_neg h0] at hsource
          refine ⟨source, hsource', ?_⟩
          split at h
          · next hempty => exact Or.inl ⟨List.isEmpty_iff.mp hempty, (Except.ok.inj h).symm⟩
          · next hempty =>
              split at h
              · cases h
              · next restored hrestored =>
                  refine Or.inr ⟨restored, fun he => hempty (by simp [he]), hrestored, ?_⟩
                  exact (Except.ok.inj h).symm

/-- The checks that an add has passed when it reaches libtorrent. -/
theorem addTarget_passes {s : Session} {env : Environment} {r : AddRequest}
    {params : AddTorrentParams} (h : s.addTarget env r = some params) :
    isValidAdd r = true ∧ s.shuttingDown = false ∧ r.identifier ∉ s.jobs ∧
      s.events.canAdd r.identifier = true ∧ r.downloadDirectory.toList.head? = some '/' := by
  unfold addTarget at h
  split at h
  · cases h
  · next hpass =>
      simp only [Bool.or_eq_true, Bool.not_eq_eq_eq_not, Bool.not_true, decide_eq_true_eq,
        not_or, Bool.not_eq_false, Bool.not_eq_true, ne_eq, not_not] at hpass
      obtain ⟨⟨⟨⟨hvalid, hrunning⟩, hfree⟩, hcan⟩, hdirectory⟩ := hpass
      exact ⟨hvalid, hrunning, hfree, hcan, hdirectory⟩

/-- How an add ends that reaches libtorrent. -/
theorem add_of_target {s : Session} {env : Environment} {r : AddRequest}
    {params : AddTorrentParams} (h : s.addTarget env r = some params) :
    ∃ read, addParams env r = .ok read ∧
      addPriorities r (withSettings r read) (desiredFiles r (withSettings r read)) =
        some params.filePriorities ∧
      params = { withSettings r read with filePriorities := params.filePriorities } ∧
      s.ltkitSessionAdd env r =
        match env.addTorrent params with
        | none => some (s.fail .nativeFailure "The torrent could not be added.")
        | some handle =>
            (s.insertJob env r.identifier params
              (newJob env r params (desiredFiles r (withSettings r read)) handle)).map
                fun s => (s, { code := .ok }) := by
  obtain ⟨read, priorities, hread, hpriorities, hparams⟩ := addTarget_eq h
  have hfiles : params.filePriorities = priorities := by rw [hparams]
  refine ⟨read, hread, hfiles ▸ hpriorities, hfiles ▸ hparams, ?_⟩
  obtain ⟨hvalid, hrunning, hfree, hcan, hdirectory⟩ := addTarget_passes h
  unfold ltkitSessionAdd
  rw [if_neg (by simp [hvalid]), if_neg (by simp [hrunning]), if_neg hfree,
    if_neg (by simp [hcan]), if_neg (not_not.mpr hdirectory), hread]
  cases hadd : env.addTorrent params with
  | none => simp only [hpriorities, ← hparams, hadd]
  | some handle => simp only [hpriorities, ← hparams, hadd]

/-- An add that does not reach libtorrent fails. -/
theorem add_of_none {s : Session} {env : Environment} {r : AddRequest}
    (h : s.addTarget env r = none) :
    ∃ code safeMessage, s.ltkitSessionAdd env r = some (s.fail code safeMessage) := by
  unfold ltkitSessionAdd
  split
  · exact ⟨_, _, rfl⟩
  next hvalid =>
  split
  · exact ⟨_, _, rfl⟩
  next hrunning =>
  split
  · exact ⟨_, _, rfl⟩
  next hfree =>
  split
  · exact ⟨_, _, rfl⟩
  next hcan =>
  split
  · exact ⟨_, _, rfl⟩
  next hdirectory =>
  unfold addTarget at h
  rw [if_neg (by simp [hvalid, hrunning, hfree, hcan, hdirectory])] at h
  split
  · exact ⟨_, _, rfl⟩
  next read hread =>
  simp only [hread, Option.map_eq_none_iff] at h
  simp only [h]
  exact ⟨_, _, rfl⟩

/-- An accepted add inserts the job of what it has asked for. -/
theorem add_job {s t : Session} {env : Environment} {r : AddRequest}
    {read params : AddTorrentParams} {job : Job} (hread : addParams env r = .ok read)
    (htarget : s.addTarget env r = some params)
    (hadd : s.ltkitSessionAdd env r = some (t, { code := .ok }))
    (hjob : t.jobs.lookup r.identifier = some job) :
    addPriorities r (withSettings r read) (desiredFiles r (withSettings r read)) =
        some params.filePriorities ∧
      job.filePriorities = params.filePriorities ∧
      job.desiredFiles = desiredFiles r (withSettings r read) ∧
      job.piecePriorities = read.piecePriorities ∧ job.deadlinePieces = ∅ := by
  obtain ⟨read', hread', hpriorities, hparams, heq⟩ := add_of_target htarget
  obtain rfl := Except.ok.inj (hread.symm.trans hread')
  have hpieces : params.piecePriorities = read.piecePriorities := by
    rw [hparams]
    rfl
  refine ⟨hpriorities, ?_⟩
  rw [heq] at hadd
  split at hadd
  · have hcode := congrArg Response.code (Prod.ext_iff.mp (Option.some.inj hadd)).2
    cases hcode
  · obtain ⟨t', hinsert, ht'⟩ := Option.map_eq_some_iff.mp hadd
    obtain rfl : t' = t := (Prod.ext_iff.mp ht').1
    obtain ⟨hjobs, _⟩ := insertJob_spec hinsert
    rw [hjobs, Finmap.lookup_insert] at hjob
    obtain rfl := Option.some.inj hjob
    exact ⟨rfl, rfl, hpieces, rfl⟩

/-- An add that libtorrent accepts inserts a job, any other records an error. -/
theorem add_target {s : Session} {env : Environment} {r : AddRequest} {res : Session × Response}
    (h : s.ltkitSessionAdd env r = some res) :
    (∃ read priorities handle t, addParams env r = .ok read ∧
      addPriorities r (withSettings r read) (desiredFiles r (withSettings r read)) =
        some priorities ∧
      s.addTarget env r = some { withSettings r read with filePriorities := priorities } ∧
      env.addTorrent { withSettings r read with filePriorities := priorities } = some handle ∧
      r.identifier ∉ s.jobs ∧
      s.insertJob env r.identifier { withSettings r read with filePriorities := priorities }
        (newJob env r { withSettings r read with filePriorities := priorities }
          (desiredFiles r (withSettings r read)) handle) = some t ∧
      res = (t, { code := .ok })) ∨
    ((∀ params, s.addTarget env r = some params → env.addTorrent params = none) ∧
      ∃ code safeMessage, res = s.fail code safeMessage) := by
  cases htarget : s.addTarget env r with
  | none =>
      obtain ⟨code, safeMessage, heq⟩ := add_of_none htarget
      exact Or.inr ⟨fun params hp => (by cases hp), code, safeMessage,
        Option.some.inj (h.symm.trans heq)⟩
  | some params =>
      obtain ⟨read, hread, hpriorities, hparams, heq⟩ := add_of_target htarget
      rw [heq] at h
      cases hadd : env.addTorrent params with
      | none =>
          rw [hadd] at h
          refine Or.inr ⟨fun params' hp => ?_, _, _, (Option.some.inj h).symm⟩
          exact Option.some.inj hp ▸ hadd
      | some handle =>
          rw [hadd] at h
          obtain ⟨t, ht, hres⟩ := Option.map_eq_some_iff.mp h
          obtain ⟨-, -, hfree, -, -⟩ := addTarget_passes htarget
          refine Or.inl ⟨read, params.filePriorities, handle, t, hread, hpriorities, ?_⟩
          rw [← hparams]
          exact ⟨rfl, hadd, hfree, ht, hres.symm⟩

end Session

end LibtorrentKit
