/-
  Selections that are rejected.

  `ltkit_session_select_files` overwrites the selection of the job and only then looks at the
  primary file and the indexes, filling the file priorities up to the first index outside the
  torrent. A rejected call so leaves its selection in the job (`selectFiles_rejected`), and
  since the file priorities have the right length by then, a later call takes them for valid.

  `selectFiles_atomic_iff`: a failed call leaves the job as it was exactly when it was refused
  before the job was overwritten, or the job held the same rejected selection already.
-/
import LibtorrentKit.Session.Reselection

namespace LibtorrentKit

/-- An index of a file of the torrent. -/
def isFileIndex (count : Nat) (index : Int) : Bool := decide (0 ≤ index ∧ index < (count : Int))

/-- The file priorities that a rejected selection leaves: none when its primary file is not
    selected, else those of the indexes before the first that is outside the torrent. -/
def rejectedFiles (count : Nat) (indexes : List Int) (primary : Int) : List Priority :=
  if 0 ≤ primary ∧ primary ∉ indexes then []
  else (List.range count).map fun i : Nat =>
    if (i : Int) ∈ indexes.takeWhile (isFileIndex count) then defaultPriority else dontDownload

/-- The call is refused before it touches the job. -/
def RefusedEarly (env : Environment) (value : Job) (indexes : List Int) (primary : Int) : Prop :=
  100000 < indexes.length ∨ primary < -1 ∨ value.stopped = true ∨
    value.completionCheckpoint = true ∨ value.completionWaiting = true ∨
    env.torrentFile value.handle = none

/-- The job holds the selection as a rejected call leaves it. -/
structure HoldsRejected (info : TorrentInfo) (indexes : List Int) (primary : Int) (value : Job) :
    Prop where
  desiredFiles : value.desiredFiles = indexes
  filePriorities : value.filePriorities = rejectedFiles info.layout.length indexes primary
  piecePriorities : value.piecePriorities = []
  primaryFile : value.primaryFile = primary

/-- The selection of a job and what libtorrent was asked to do are what they were. -/
structure SelectionUntouched (s s' : Session) (value value' : Job) : Prop where
  desiredFiles : value'.desiredFiles = value.desiredFiles
  filePriorities : value'.filePriorities = value.filePriorities
  piecePriorities : value'.piecePriorities = value.piecePriorities
  primaryFile : value'.primaryFile = value.primaryFile
  deadlinePieces : value'.deadlinePieces = value.deadlinePieces
  trace : s'.trace = s.trace

/-! ## What a rejected call leaves -/

theorem map_getD_range {priorities : List Priority} {count : Nat}
    (hlength : priorities.length = count) :
    ((List.range count).map fun i => priorities.getD i dontDownload) = priorities := by
  refine List.ext_getElem (by simp [hlength]) fun i hi hi' => ?_
  rw [List.getElem_map, List.getElem_range, List.getD_eq_getElem?_getD,
    List.getElem?_eq_getElem hi', Option.getD_some]

/-- The loop over the desired files stops at the first index outside the torrent. -/
theorem fillDesired_eq {count : Nat} {priorities : List Priority} (desired : List Int)
    (hlength : priorities.length = count) :
    (fillDesired count priorities desired).1 = (List.range count).map fun i : Nat =>
      if (i : Int) ∈ desired.takeWhile (isFileIndex count) then defaultPriority
      else priorities.getD i dontDownload := by
  induction desired generalizing priorities with
  | nil =>
      simp only [List.takeWhile_nil, List.not_mem_nil, if_false]
      exact (map_getD_range hlength).symm
  | cons index rest ih =>
      unfold fillDesired
      split
      · next hrange =>
          have hstop : isFileIndex count index = false := decide_eq_false (by omega)
          simp only [List.takeWhile_cons, hstop, Bool.false_eq_true, List.not_mem_nil, if_false]
          exact (map_getD_range hlength).symm
      · next hrange =>
          have hgo : isFileIndex count index = true := decide_eq_true (by omega)
          rw [ih (by rw [List.length_set, hlength])]
          apply List.map_congr_left
          intro i hi
          have hcount : i < count := List.mem_range.mp hi
          simp only [List.takeWhile_cons, hgo, if_true, List.mem_cons]
          by_cases hrest : (i : Int) ∈ rest.takeWhile (isFileIndex count)
          · rw [if_pos hrest, if_pos (Or.inr hrest)]
          · rw [if_neg hrest]
            by_cases hindex : (i : Int) = index
            · rw [if_pos (Or.inl hindex), List.getD_eq_getElem?_getD,
                show index.toNat = i by omega, List.getElem?_set_self (by omega)]
              rfl
            · rw [if_neg (not_or.mpr ⟨hindex, hrest⟩), List.getD_eq_getElem?_getD,
                List.getElem?_set_ne (by omega), List.getD_eq_getElem?_getD]

/-- A rejected call asks nothing of libtorrent. Unless it was refused before, the job is left
    with the rejected selection. -/
theorem selectFiles_rejected {env : Environment} {value : Job} {indexes : List Int}
    {primary : Int} {code : Code} {safeMessage : String}
    (h : (selectFiles env value indexes primary).2.2 = .fail code safeMessage) :
    (selectFiles env value indexes primary).2.1 = [] ∧
      ((selectFiles env value indexes primary).1 = value ∧
          (value.completionCheckpoint = true ∨ value.completionWaiting = true ∨
            env.torrentFile value.handle = none) ∨
        (value.completionCheckpoint = false ∧ value.completionWaiting = false) ∧
          ∃ info, env.torrentFile value.handle = some info ∧
            HoldsRejected info indexes primary (selectFiles env value indexes primary).1 ∧
            (selectFiles env value indexes primary).1.deadlinePieces = value.deadlinePieces) := by
  unfold selectFiles at h ⊢
  split
  · next hbusy =>
      rw [Bool.or_eq_true] at hbusy
      exact ⟨rfl, Or.inl ⟨rfl, hbusy.imp_right Or.inl⟩⟩
  · next hfree =>
      rw [if_neg hfree] at h
      split
      · next hnone =>
          exact ⟨rfl, Or.inl ⟨rfl, Or.inr (Or.inr (Option.isNone_iff_eq_none.mp hnone))⟩⟩
      · next hsome =>
          rw [if_neg hsome] at h
          obtain ⟨info, hinfo⟩ := Option.ne_none_iff_exists'.mp
            (fun hnone => hsome (Option.isNone_iff_eq_none.mpr hnone))
          have hnot : value.completionCheckpoint = false ∧ value.completionWaiting = false := by
            simpa using hfree
          dsimp only at h ⊢
          split
          · next hprimary =>
              exact ⟨rfl, Or.inr ⟨hnot, info, hinfo, ⟨rfl, (if_pos hprimary).symm, rfl, rfl⟩, rfl⟩⟩
          · next hprimary =>
              rw [if_neg hprimary] at h
              obtain ⟨files, hfiles, happly⟩ := applyOr_rejected h hinfo
              rw [happly]
              refine ⟨rfl, Or.inr ⟨hnot, info, hinfo, ⟨rfl, ?_, rfl, rfl⟩, rfl⟩⟩
              show files = _
              unfold rejectedFiles
              rw [if_neg hprimary]
              unfold selectedFiles at hfiles
              dsimp only at hfiles
              split at hfiles
              · have hfirst := congrArg Prod.fst hfiles
                rw [fillDesired_eq indexes List.length_replicate] at hfirst
                rw [← show _ = files from hfirst]
                apply List.map_congr_left
                intro i hi
                rw [List.getD_eq_getElem?_getD, List.getElem?_replicate,
                  if_pos (List.mem_range.mp hi)]
                rfl
              · cases congrArg Prod.snd hfiles

/-- A failed call on an active job has failed in its body, or has no memory for its answer. -/
theorem Session.onActive_fails {s s' : Session} {env : Environment} {id m : String} {value : Job}
    {body : Job → Job × List Action × Reply} {response : Response}
    (hvalue : s.jobs.lookup id = some value) (hactive : value.stopped = false)
    (hempty : ∀ output, (body value).2.2 = .ok output → output.isEmpty = true)
    (h : s.onActive env id m body = some (s', response)) (hfail : response.code ≠ .ok) :
    ∃ code safeMessage t, (body value).2.2 = .fail code safeMessage ∧
      s.update env id ((body value).1, (body value).2.1) = some t ∧
      s'.jobs = t.jobs ∧ s'.trace = t.trace := by
  unfold onActive at h
  simp only [hvalue, hactive, Bool.false_eq_true, if_false] at h
  obtain ⟨t, ht, hreply⟩ := Option.map_eq_some_iff.mp h
  cases hanswer : (body value).2.2 with
  | ok output =>
      rw [hanswer] at hreply
      unfold reply at hreply
      dsimp only at hreply
      rw [copyBuffer, hempty output hanswer, Bool.true_or, if_pos rfl] at hreply
      obtain rfl := (Prod.ext_iff.mp hreply).2
      exact absurd rfl hfail
  | fail code safeMessage =>
      rw [hanswer] at hreply
      obtain rfl := (Prod.ext_iff.mp hreply).1
      exact ⟨code, safeMessage, t, rfl, ht, rfl, rfl⟩

theorem selectFiles_answer {env : Environment} {value : Job} {indexes : List Int} {primary : Int}
    {output : Output} (h : (selectFiles env value indexes primary).2.2 = .ok output) :
    output.isEmpty = true := by
  unfold selectFiles applyOr at h
  dsimp only at h
  repeat' split at h
  all_goals cases h
  rfl

/-- A failed selection leaves the job and libtorrent as they were exactly when it was refused
    before the job was overwritten, or the job held the same rejected selection already. -/
theorem selectFiles_atomic_iff {s s' : Session} {env : Environment} {id : String}
    {value value' : Job} {indexes : List Int} {primary : Int} {response : Response}
    (hvalue : s.jobs.lookup id = some value)
    (h : s.enter env (.selectFiles id indexes primary) = some (s', some response))
    (hfail : response.code ≠ .ok) (hvalue' : s'.jobs.lookup id = some value') :
    SelectionUntouched s s' value value' ↔ RefusedEarly env value indexes primary ∨
      ∃ info, env.torrentFile value.handle = some info ∧
        HoldsRejected info indexes primary value := by
  have unchanged : s'.jobs = s.jobs → s'.trace = s.trace →
      SelectionUntouched s s' value value' := by
    intro hjobs htrace
    rw [hjobs] at hvalue'
    obtain rfl := Option.some.inj (hvalue'.symm.trans hvalue)
    exact ⟨rfl, rfl, rfl, rfl, rfl, htrace⟩
  have hr := Session.of_returning h
  unfold Session.ltkitSessionSelectFiles at hr
  split at hr
  · next harguments =>
      obtain ⟨rfl, _⟩ := Prod.ext_iff.mp (Option.some.inj hr)
      exact iff_of_true (unchanged rfl rfl)
        (Or.inl (harguments.imp_right Or.inl))
  · next harguments =>
      cases hstopped : value.stopped with
      | true =>
          unfold Session.onActive at hr
          simp only [hvalue, hstopped, if_true] at hr
          obtain ⟨rfl, _⟩ := Prod.ext_iff.mp (Option.some.inj hr)
          exact iff_of_true (unchanged rfl rfl) (Or.inl (Or.inr (Or.inr (Or.inl hstopped))))
      | false =>
          obtain ⟨code, safeMessage, t, hanswer, hupdate, hjobs, htrace⟩ :=
            @Session.onActive_fails _ _ _ _ _ _ (fun value => selectFiles env value indexes primary)
              _ hvalue hstopped (fun _ => selectFiles_answer) hr hfail
          obtain ⟨hactions, hleft⟩ := selectFiles_rejected hanswer
          obtain ⟨new, hu⟩ := Session.update_spec hupdate
          have hnew : s'.trace = s.trace := by
            have hemits := hu.emits
            dsimp only at hemits
            rw [hactions] at hemits
            rw [htrace, hu.trace, show new = [] from hemits, List.append_nil]
          have hjob : value' = (selectFiles env value indexes primary).1 := by
            rw [hjobs, hu.jobs, Finmap.lookup_insert] at hvalue'
            exact (Option.some.inj hvalue').symm
          rcases hleft with ⟨hsame, hearly⟩ |
            ⟨⟨hcheckpoint, hwaiting⟩, info, hinfo, hleft, hdeadlines⟩
          · rw [hsame] at hjob
            subst hjob
            exact iff_of_true ⟨rfl, rfl, rfl, rfl, rfl, hnew⟩
              (Or.inl (Or.inr (Or.inr (Or.inr hearly))))
          · rw [← hjob] at hleft hdeadlines
            constructor
            · intro huntouched
              refine Or.inr ⟨info, hinfo, ?_, ?_, ?_, ?_⟩
              · rw [← huntouched.desiredFiles, hleft.desiredFiles]
              · rw [← huntouched.filePriorities, hleft.filePriorities]
              · rw [← huntouched.piecePriorities, hleft.piecePriorities]
              · rw [← huntouched.primaryFile, hleft.primaryFile]
            · rintro (hearly | ⟨info', hinfo', hheld⟩)
              · unfold RefusedEarly at hearly
                simp [hstopped, hcheckpoint, hwaiting, hinfo] at hearly
                omega
              · obtain rfl := Option.some.inj (hinfo.symm.trans hinfo')
                exact ⟨hleft.desiredFiles.trans hheld.desiredFiles.symm,
                  hleft.filePriorities.trans hheld.filePriorities.symm,
                  hleft.piecePriorities.trans hheld.piecePriorities.symm,
                  hleft.primaryFile.trans hheld.primaryFile.symm, hdeadlines, hnew⟩

/-! ## A rejected selection that takes effect later -/

/-- The session after a torrent of two files was added with the first selected, and some calls. -/
def pairAfter (calls : List Api) : Session :=
  sessionAfter Session.pairMetadata (.add sampleRequest :: calls)

/-- The second file is selected together with one that does not exist. -/
def rejectedCall : Api := .selectFiles "a" [1, 5] (-1)

def rejectedJob : Job where
  handle := 1
  desiredFiles := [1, 5]
  filePriorities := [0, 4]
  metadataReady := true

theorem pairAfter_answers {calls : List Api} {api : Api} {code : Code}
    (h : ((pairAfter calls).enter Session.pairMetadata api).any
      (fun r => decide (r.2.map Response.code = some code)) = true) :
    ∃ response, (pairAfter calls).enter Session.pairMetadata api =
      some (pairAfter (calls ++ [api]), some response) ∧ response.code = code :=
  sessionAfter_answers h

theorem rejectedCall_job : (pairAfter [rejectedCall]).jobs.lookup "a" = some rejectedJob := by
  decide +kernel

/-- The same call once more changes nothing. -/
theorem rejectedCall_again :
    SelectionUntouched (pairAfter [rejectedCall]) (pairAfter [rejectedCall, rejectedCall])
      rejectedJob rejectedJob := by
  obtain ⟨response, hr, hcode⟩ :=
    @pairAfter_answers [rejectedCall] rejectedCall .invalidFileIndex (by decide +kernel)
  have hjob : (pairAfter [rejectedCall, rejectedCall]).jobs.lookup "a" = some rejectedJob := by
    decide +kernel
  exact (selectFiles_atomic_iff rejectedCall_job hr (by rw [hcode]; decide) hjob).mpr
    (Or.inr ⟨Session.pairInfo, rfl, rfl, by decide, rfl, rfl⟩)

/-- The rejected call replaces the selection of the first file, and clearing the window later
    asks libtorrent for the second. -/
theorem rejectedCall_acts :
    ∃ value response, (pairAfter []).jobs.lookup "a" = some value ∧
      (pairAfter []).enter Session.pairMetadata rejectedCall =
        some (pairAfter [rejectedCall], some response) ∧
      response.code = .invalidFileIndex ∧
      (pairAfter [rejectedCall]).jobs.lookup "a" = some rejectedJob ∧
      ¬ SelectionUntouched (pairAfter []) (pairAfter [rejectedCall]) value rejectedJob ∧
      .command (.prioritizeFiles 1 [0, 4]) ∈
        (pairAfter [rejectedCall, .clearStreamingWindow "a"]).trace := by
  have hvalue : ((pairAfter []).jobs.lookup "a").any
      (fun value => decide (value.desiredFiles = [0])) = true := by decide +kernel
  obtain ⟨value, hlookup, hdesired⟩ := (Option.any_eq_true _ _).mp hvalue
  obtain ⟨response, hr, hcode⟩ :=
    @pairAfter_answers [] rejectedCall .invalidFileIndex (by decide +kernel)
  refine ⟨value, response, hlookup, hr, hcode, rejectedCall_job, fun h => ?_, by decide +kernel⟩
  have hsame := h.desiredFiles
  rw [of_decide_eq_true hdesired] at hsame
  revert hsame
  decide

end LibtorrentKit
