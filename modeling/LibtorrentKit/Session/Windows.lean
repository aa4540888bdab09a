/-
  Streaming windows over a sequence of calls.

  `Tuned` is a session together with what libtorrent holds for the pieces of one torrent. Its
  steps are the successful calls that update or clear the window of the torrent or set the
  priority of a piece; the commands that a call issues take effect in their order.

  `windows_history_independent`: what libtorrent holds after such a sequence depends on the
  baseline and on the last request alone.
-/
import LibtorrentKit.Session.Pieces

namespace LibtorrentKit

/-- A call that works on the pieces of a torrent. -/
inductive Tune where
  | update (fileIndex byteOffset criticalBytes warmBytes consumptionBytesPerSecond : Int)
      (prioritizeEdges : Bool)
  | clear
  | piece (pieceIndex : Int) (priority : Nat)
  deriving DecidableEq, Repr

def Tune.api (id : String) : Tune → Api
  | .update fileIndex byteOffset criticalBytes warmBytes rate edges =>
      .updateStreamingWindow id fileIndex byteOffset criticalBytes warmBytes rate edges
  | .clear => .clearStreamingWindow id
  | .piece pieceIndex priority => .setPiecePriority id pieceIndex priority

/-- The commands to a torrent among entries of the trace. -/
def commandsTo (handle : Handle) (entries : List Entry) : List Command :=
  entries.filterMap fun
    | .command c => if c.torrent = handle then some c else none
    | _ => none

/-- A session, and the pieces of one torrent as libtorrent holds them. -/
structure Tuned where
  session : Session
  pieces : PieceState

section

variable (refit : List Priority → (Int → Priority) → Int → Priority) (info : TorrentInfo)
  (id : String) (handle : Handle)

/-- A successful call for the torrent `id`. libtorrent answers with the metadata of the torrent
    and with the priorities that it holds. -/
def Tuned.step (w : Tuned) (l : Environment × Tune) : Option Tuned :=
  if l.1.torrentFile handle = some info
      ∧ l.1.getPiecePriorities handle = w.pieces.list info.numPieces then
    match w.session.enter l.1 (l.2.api id) with
    | some (s, some response) =>
        if response.code = .ok then
          some { session := s
                 pieces := w.pieces.run refit
                   (commandsTo handle (s.trace.drop w.session.trace.length)) }
        else none
    | _ => none
  else none

end

/-- The baseline, overlaid with the piece priorities set since. -/
def overlaid (base : List Priority) (ops : List Tune) : List Priority :=
  ops.foldl (fun base op => match op with
    | .piece pieceIndex priority => base.set pieceIndex.toNat priority
    | _ => base) base

/-! ## What a successful call does -/

/-- A job and its commands after a successful call; `current` are libtorrent's priorities. -/
inductive TuneEffect (info : TorrentInfo) (current : List Priority) (value : Job) :
    Tune → Job → List Command → Prop
  | update {fileIndex byteOffset criticalBytes warmBytes rate : Int} {edges : Bool}
      {file : FileEntry} {files : List Priority} {value' : Job}
      (hfile : info.layout[fileIndex.toNat]? = some file)
      (hfiles : selectedFiles info value = (files, true))
      (hpriorities : value'.filePriorities = files)
      (hpieces : value'.piecePriorities = selectedPieces info value files)
      (hdeadlines : value'.deadlinePieces = (indexRange
        (streamingWindow info file byteOffset criticalBytes warmBytes).playback
        (streamingWindow info file byteOffset criticalBytes warmBytes).criticalLast).toFinset) :
      TuneEffect info current value
        (.update fileIndex byteOffset criticalBytes warmBytes rate edges) value'
        (windowCommands value.handle files (selectedPieces info value files)
          (streamingWindow info file byteOffset criticalBytes warmBytes) edges
          (pieceDeadline info file byteOffset rate))
  | clear {files : List Priority} {value' : Job}
      (hfiles : selectedFiles info value = (files, true))
      (hpriorities : value'.filePriorities = files)
      (hpieces : value'.piecePriorities = selectedPieces info value files)
      (hdeadlines : value'.deadlinePieces = ∅) :
      TuneEffect info current value .clear value' (.clearPieceDeadlines value.handle ::
        selectionCommands value.handle files (selectedPieces info value files))
  | piece {pieceIndex : Int} {priority : Nat} {value' : Job} (hfirst : 0 ≤ pieceIndex)
      (hlast : pieceIndex < info.numPieces)
      (hpriorities : value'.filePriorities = value.filePriorities)
      (hpieces : value'.piecePriorities =
        (fitted value.piecePriorities current info.numPieces).set pieceIndex.toNat priority)
      (hdeadlines : value'.deadlinePieces = value.deadlinePieces) :
      TuneEffect info current value (.piece pieceIndex priority) value'
        [.piecePriority value.handle pieceIndex priority]

/-- A successful update of the window. -/
theorem updateStreamingWindow_effect {env : Environment} {value : Job} {info : TorrentInfo}
    {fileIndex byteOffset criticalBytes warmBytes rate : Int} {edges : Bool} {output : Output}
    (hinfo : env.torrentFile value.handle = some info)
    (h : (updateStreamingWindow env value fileIndex byteOffset criticalBytes warmBytes rate
      edges).2.2 = .ok output) (current : List Priority) :
    ∃ commands, (updateStreamingWindow env value fileIndex byteOffset criticalBytes warmBytes rate
        edges).2.1 = commands.map .command ∧
      TuneEffect info current value
        (.update fileIndex byteOffset criticalBytes warmBytes rate edges)
        (updateStreamingWindow env value fileIndex byteOffset criticalBytes warmBytes rate
          edges).1 commands := by
  unfold updateStreamingWindow at h ⊢
  simp only [hinfo] at h ⊢
  split at h
  · cases h
  · next file hfile =>
      split at h
      · cases h
      · next hselected =>
          rw [if_neg hselected]
          split at h
          · cases h
          · next hrange =>
              rw [if_neg hrange]
              rcases hfiles : selectedFiles info value with ⟨files, ok⟩
              cases ok with
              | false => simp [applySelection_failed env value hinfo hfiles] at h
              | true =>
                  simp only [applySelection_ok env value hinfo hfiles, Bool.not_true,
                    Bool.false_eq_true, if_false]
                  refine ⟨_, ?_, .update hfile hfiles rfl rfl rfl⟩
                  simp only [windowCommands, selectionCommands, edgePieces, List.map_append,
                    List.map_cons, List.map_nil, List.map_map, List.cons_append, List.nil_append]
                  cases edges with
                  | false => rfl
                  | true =>
                      simp only [if_true]
                      split
                      · rfl
                      · rfl

theorem updateStreamingWindow_fails {env : Environment} {value : Job}
    {fileIndex byteOffset criticalBytes warmBytes rate : Int} {edges : Bool} {code : Code}
    {safeMessage : String}
    (h : (updateStreamingWindow env value fileIndex byteOffset criticalBytes warmBytes rate
      edges).2.2 = .fail code safeMessage) : code ≠ .ok := by
  rintro rfl
  unfold updateStreamingWindow at h
  dsimp only at h
  repeat' split at h
  all_goals cases h

theorem clearStreamingWindow_fails {env : Environment} {value : Job} {code : Code}
    {safeMessage : String}
    (h : (clearStreamingWindow env value).2.2 = .fail code safeMessage) : code ≠ .ok := by
  rintro rfl
  unfold clearStreamingWindow at h
  dsimp only at h
  split at h
  · cases h
  · cases h

theorem setPiecePriority_fails {env : Environment} {value : Job} {pieceIndex : Int}
    {priority : Nat} {code : Code} {safeMessage : String}
    (h : (setPiecePriority env value pieceIndex priority).2.2 = .fail code safeMessage) :
    code ≠ .ok := by
  rintro rfl
  unfold setPiecePriority at h
  repeat' split at h
  all_goals cases h

/-- A successful call that clears the window. -/
theorem clearStreamingWindow_effect {env : Environment} {value : Job} {info : TorrentInfo}
    {output : Output} (hinfo : env.torrentFile value.handle = some info)
    (h : (clearStreamingWindow env value).2.2 = .ok output) (current : List Priority) :
    ∃ commands, (clearStreamingWindow env value).2.1 = commands.map .command ∧
      TuneEffect info current value .clear (clearStreamingWindow env value).1 commands := by
  unfold clearStreamingWindow at h ⊢
  rcases hfiles : selectedFiles info value with ⟨files, ok⟩
  have hcleared : selectedFiles info { value with deadlinePieces := ∅ } = (files, ok) := hfiles
  cases ok with
  | false =>
      have happly := applySelection_failed env { value with deadlinePieces := ∅ } hinfo hcleared
      simp [happly] at h
  | true =>
      have happly := applySelection_ok env { value with deadlinePieces := ∅ } hinfo hcleared
      simp only [happly, Bool.not_true, Bool.false_eq_true, if_false]
      exact ⟨_, rfl, .clear hfiles rfl rfl rfl⟩

/-- A successful call that sets the priority of a piece. -/
theorem setPiecePriority_effect {env : Environment} {value : Job} {info : TorrentInfo}
    {pieceIndex : Int} {priority : Nat} {output : Output}
    (hinfo : env.torrentFile value.handle = some info) (hfirst : 0 ≤ pieceIndex)
    (h : (setPiecePriority env value pieceIndex priority).2.2 = .ok output) :
    ∃ commands, (setPiecePriority env value pieceIndex priority).2.1 = commands.map .command ∧
      TuneEffect info (env.getPiecePriorities value.handle) value (.piece pieceIndex priority)
        (setPiecePriority env value pieceIndex priority).1 commands := by
  unfold setPiecePriority at h ⊢
  simp only [hinfo] at h ⊢
  split at h
  · cases h
  · next hlast =>
      rw [if_neg hlast]
      exact ⟨_, rfl, .piece hfirst (by omega) rfl rfl rfl⟩

namespace Session

/-- A call that returns within its critical section. -/
theorem of_returning {x : Option (Session × Response)} {s : Session} {response : Response}
    (h : x.map returning = some (s, some response)) : x = some (s, response) := by
  obtain ⟨r, rfl, hret⟩ := Option.map_eq_some_iff.mp h
  obtain ⟨hs, hresponse⟩ := Prod.ext_iff.mp hret
  exact congrArg some (Prod.ext hs (Option.some.inj hresponse))

/-- What a successful call on an active job has done. -/
theorem onActive_ok {s s' : Session} {env : Environment} {id m : String}
    {body : Job → Job × List Action × Reply} {response : Response}
    (hfail : ∀ value code safeMessage, (body value).2.2 = .fail code safeMessage → code ≠ .ok)
    (h : s.onActive env id m body = some (s', response)) (hok : response.code = .ok) :
    ∃ value output, s.jobs.lookup id = some value ∧ (body value).2.2 = .ok output ∧
      s.update env id ((body value).1, (body value).2.1) = some s' ∧ response.output = output := by
  have hnotActive : some s.notActive = some (s', response) → False := by
    intro h
    have hcode := congrArg Response.code (Prod.ext_iff.mp (Option.some.inj h)).2
    rw [hok] at hcode
    cases hcode
  unfold onActive at h
  split at h
  · exact absurd h hnotActive
  · next value hvalue =>
      split at h
      · exact absurd h hnotActive
      · obtain ⟨t, ht, hreply⟩ := Option.map_eq_some_iff.mp h
        cases hanswer : (body value).2.2 with
        | fail code safeMessage =>
            rw [hanswer] at hreply
            obtain rfl := (Prod.ext_iff.mp hreply).2
            exact absurd hok (hfail value code safeMessage hanswer)
        | ok output =>
            rw [hanswer] at hreply
            unfold reply at hreply
            dsimp only at hreply
            split at hreply
            · obtain rfl : t = s' := (Prod.ext_iff.mp hreply).1
              obtain rfl := (Prod.ext_iff.mp hreply).2
              exact ⟨value, output, hvalue, hanswer, ht, rfl⟩
            · obtain rfl := (Prod.ext_iff.mp hreply).2
              cases hok

/-- Commands leave themselves in the trace. -/
theorem emits_commands {id : String} {commands : List Command} {new : List Entry}
    (h : Emits id (commands.map .command) new) : new = commands.map .command := by
  induction commands generalizing new with
  | nil => exact h
  | cons c commands ih =>
      obtain ⟨rest, rfl, hrest⟩ := emits_cons (by intro json hc; cases hc) rfl h
      rw [ih hrest, List.map_cons]

end Session

/-- Commands to the torrent itself are all that it is sent. -/
theorem commandsTo_commands {handle : Handle} {commands : List Command}
    (h : ∀ c ∈ commands, c.torrent = handle) :
    commandsTo handle (commands.map .command) = commands := by
  induction commands with
  | nil => rfl
  | cons c commands ih =>
      obtain ⟨hc, hcommands⟩ := List.forall_mem_cons.mp h
      have hrest := ih hcommands
      unfold commandsTo at hrest ⊢
      rw [List.map_cons, List.filterMap_cons_some (b := c) (by simp [hc]), hrest]

theorem TuneEffect.torrent {info : TorrentInfo} {current : List Priority} {value value' : Job}
    {op : Tune} {commands : List Command} (h : TuneEffect info current value op value' commands) :
    ∀ c ∈ commands, c.torrent = value.handle := by
  cases h with
  | update =>
      intro c hc
      simp only [windowCommands, selectionCommands, List.mem_append, List.mem_cons, List.mem_map,
        List.not_mem_nil, or_false] at hc
      rcases hc with ((rfl | rfl | rfl | rfl) | ⟨p, _, rfl⟩) | rfl <;> rfl
  | clear =>
      intro c hc
      simp only [selectionCommands, List.mem_cons, List.not_mem_nil, or_false] at hc
      rcases hc with rfl | rfl | rfl | rfl <;> rfl
  | piece =>
      intro c hc
      obtain rfl := List.mem_singleton.mp hc
      rfl

section

variable {refit : List Priority → (Int → Priority) → Int → Priority} {info : TorrentInfo}
  {id : String} {handle : Handle}

/-- A call that has worked on the job of `id`: what its body says of the job and of the commands
    is what the session shows. -/
theorem Session.onActive_effect {s s' : Session} {env : Environment} {value : Job} {m : String}
    {response : Response} {effect : Job → List Command → Prop}
    (body : Job → Job × List Action × Reply) (hvalue : s.jobs.lookup id = some value)
    (hfail : ∀ value code safeMessage, (body value).2.2 = .fail code safeMessage → code ≠ .ok)
    (hselects : value.Selects (body value).1)
    (heffect : ∀ output, (body value).2.2 = .ok output →
      ∃ commands, (body value).2.1 = commands.map .command ∧
        (∀ c ∈ commands, c.torrent = value.handle) ∧ effect (body value).1 commands)
    (h : s.onActive env id m body = some (s', response)) (hok : response.code = .ok) :
    ∃ value' new, s'.jobs.lookup id = some value' ∧ value'.handle = value.handle ∧
      s'.trace = s.trace ++ new ∧ effect value' (commandsTo value.handle new) := by
  obtain ⟨value₀, output, hvalue₀, hanswer, hupdate, -⟩ := Session.onActive_ok hfail h hok
  obtain rfl := Option.some.inj (hvalue.symm.trans hvalue₀)
  obtain ⟨commands, hcommands, htorrent, heff⟩ := heffect output hanswer
  obtain ⟨new, hu⟩ := Session.update_spec hupdate
  have hemits := hu.emits
  dsimp only at hemits
  rw [hcommands] at hemits
  obtain ⟨_, _, _, _, _, _, hwith, _⟩ := hselects
  refine ⟨(body value).1, new, ?_, by rw [hwith]; rfl, hu.trace, ?_⟩
  · rw [hu.jobs]
    exact Finmap.lookup_insert _
  · rw [Session.emits_commands hemits, commandsTo_commands htorrent]
    exact heff

/-- What a successful call does to the job and asks of its torrent. -/
theorem Session.enter_tune {s s' : Session} {env : Environment} {value : Job} {op : Tune}
    {response : Response} (hvalue : s.jobs.lookup id = some value)
    (hinfo : env.torrentFile value.handle = some info)
    (h : s.enter env (op.api id) = some (s', some response)) (hok : response.code = .ok) :
    ∃ value' new, s'.jobs.lookup id = some value' ∧ value'.handle = value.handle ∧
      s'.trace = s.trace ++ new ∧ TuneEffect info (env.getPiecePriorities value.handle) value op
        value' (commandsTo value.handle new) := by
  have torrents : ∀ {value' : Job} {l : List Action}, (∃ commands, l = commands.map .command ∧
      TuneEffect info (env.getPiecePriorities value.handle) value op value' commands) →
      ∃ commands, l = commands.map .command ∧ (∀ c ∈ commands, c.torrent = value.handle) ∧
        TuneEffect info (env.getPiecePriorities value.handle) value op value' commands :=
    fun ⟨commands, hl, heffect⟩ => ⟨commands, hl, heffect.torrent, heffect⟩
  cases op with
  | update fileIndex byteOffset criticalBytes warmBytes rate edges =>
      have hr := Session.of_returning h
      unfold Session.ltkitSessionUpdateStreamingWindow at hr
      split at hr
      · obtain ⟨_, rfl⟩ := Prod.ext_iff.mp (Option.some.inj hr)
        cases hok
      · exact Session.onActive_effect (fun value => updateStreamingWindow env value _ _ _ _ _ _)
          hvalue (fun _ _ _ => updateStreamingWindow_fails)
          (updateStreamingWindow_spec env value _ _ _ _ _ _).1
          (fun output ho => torrents (updateStreamingWindow_effect hinfo ho _)) hr hok
  | clear =>
      exact Session.onActive_effect (clearStreamingWindow env) hvalue
        (fun _ _ _ => clearStreamingWindow_fails) (clearStreamingWindow_spec env value).1
        (fun output ho => torrents (clearStreamingWindow_effect hinfo ho _))
        (Session.of_returning h) hok
  | piece pieceIndex priority =>
      have hr := Session.of_returning h
      unfold Session.ltkitSessionSetPiecePriority at hr
      split at hr
      · obtain ⟨_, rfl⟩ := Prod.ext_iff.mp (Option.some.inj hr)
        cases hok
      · next hrange =>
          exact Session.onActive_effect (fun value => setPiecePriority env value _ _) hvalue
            (fun _ _ _ => setPiecePriority_fails) (setPiecePriority_spec env value _ _).1
            (fun output ho => torrents (setPiecePriority_effect hinfo (by omega) ho)) hr hok

/-- What a step does to the job and to the pieces of the torrent. -/
theorem Tuned.step_effect {w w' : Tuned} {l : Environment × Tune} {value : Job}
    (hvalue : w.session.jobs.lookup id = some value) (hhandle : value.handle = handle)
    (h : Tuned.step refit info id handle w l = some w') :
    ∃ value' commands, w'.session.jobs.lookup id = some value' ∧ value'.handle = handle ∧
      w'.pieces = w.pieces.run refit commands ∧
      TuneEffect info (w.pieces.list info.numPieces) value l.2 value' commands := by
  obtain ⟨env, op⟩ := l
  subst hhandle
  unfold Tuned.step at h
  dsimp only at h
  split at h
  · next hanswers =>
      obtain ⟨hinfo, hcurrent⟩ := hanswers
      split at h
      · next s response henter =>
          split at h
          · next hok =>
              obtain rfl := Option.some.inj h
              obtain ⟨value', new, hlookup, hhandle, htrace, heffect⟩ :=
                Session.enter_tune hvalue hinfo henter hok
              rw [hcurrent] at heffect
              exact ⟨value', _, hlookup, hhandle, by rw [htrace, List.drop_left], heffect⟩
          · cases h
      · cases h
  · cases h

/-! ## The invariant -/

variable (info id handle) in
/-- The job of `id` and the pieces of its torrent agree on the baseline and on the deadlines. -/
def Tuned.Follows (base : List Priority) (w : Tuned) : Prop :=
  ∃ value, w.session.jobs.lookup id = some value ∧ value.handle = handle ∧
    baseline info value = base ∧
    -- only a job that no call has worked on may still take libtorrent's priorities
    (value.piecePriorities.length = info.numPieces ∨ w.pieces.list info.numPieces = base) ∧
    ∀ p, p ∈ value.deadlinePieces ↔ (w.pieces.deadline p).isSome = true

variable (info) in
/-- What a window call leaves of the pieces: it depends on the baseline and the request. -/
def TuneLeaves (base : List Priority) (pieces : PieceState) : Tune → Prop
  | .update fileIndex byteOffset criticalBytes warmBytes rate edges =>
      ∃ file, info.layout[fileIndex.toNat]? = some file ∧
        pieces.list info.numPieces = (List.range info.numPieces).map
          (windowPriority base (streamingWindow info file byteOffset criticalBytes warmBytes)
            edges) ∧
        pieces.deadline = windowDeadline
          (streamingWindow info file byteOffset criticalBytes warmBytes)
          (pieceDeadline info file byteOffset rate)
  | .clear => pieces.list info.numPieces = base ∧ ∀ p, pieces.deadline p = none
  | .piece _ _ => True

theorem windowDeadline_isSome {w : Window} {deadline : Int → Int} {p : Int} :
    (windowDeadline w deadline p).isSome = true ↔ p ∈ indexRange w.playback w.criticalLast := by
  unfold windowDeadline
  rw [mem_indexRange]
  split
  · next h => simp [h]
  · next h => simp [h]

theorem PieceState.list_length (e : PieceState) (count : Nat) : (e.list count).length = count := by
  simp [PieceState.list]

/-- The pieces of a torrent that follow a baseline. -/
theorem PieceState.list_eq {e : PieceState} {base : List Priority} {count : Nat}
    (hlength : base.length = count) (h : ∀ p < count, e.priority p = base.getD p dontDownload) :
    e.list count = base := by
  refine List.ext_getElem (by simp [PieceState.list, hlength]) fun i hi hi' => ?_
  have hp := h i (by rw [← hlength]; exact hi')
  rw [List.getD_eq_getElem?_getD, List.getElem?_eq_getElem hi'] at hp
  simpa [PieceState.list] using hp

/-- The baseline that a call works on, when libtorrent's priorities stand in for missing ones. -/
theorem fitted_eq {current base : List Priority} {value : Job}
    (hcurrent : current.length = info.numPieces) (hbase : baseline info value = base)
    (h : value.piecePriorities.length = info.numPieces ∨ current = base) :
    fitted value.piecePriorities current info.numPieces = base := by
  unfold fitted
  split
  · next hlength =>
      rw [← h.resolve_left hlength, ← hcurrent, List.take_length]
      simp
  · next hlength => rw [← baseline_of_pieces (not_not.mp hlength), hbase]

/-- What one call keeps, and what it leaves. -/
theorem Tuned.step_follows {w w' : Tuned} {l : Environment × Tune} {base : List Priority}
    (h : w.Follows info id handle base) (hstep : Tuned.step refit info id handle w l = some w') :
    w'.Follows info id handle (overlaid base [l.2]) ∧ TuneLeaves info base w'.pieces l.2 := by
  obtain ⟨value, hvalue, hhandle, hbase, hown, hdeadlines⟩ := h
  obtain ⟨value', commands, hvalue', hhandle', hpieces, heffect⟩ :=
    Tuned.step_effect hvalue hhandle hstep
  obtain ⟨env, op⟩ := l
  dsimp only at heffect ⊢
  have hlength : base.length = info.numPieces := by rw [← hbase, baseline_length]
  cases heffect with
  | @update fileIndex byteOffset criticalBytes warmBytes rate edges file files _ hfile hfiles
      hpriorities hown' hset =>
      have hselected : selectedPieces info value files = base := by
        rw [← hbase, baseline, hfiles]
      rw [hselected] at hpieces hown'
      obtain ⟨hpriority, hdeadline⟩ := PieceState.windowCommands_run refit w.pieces value.handle
        files base (streamingWindow info file byteOffset criticalBytes warmBytes) edges
        (pieceDeadline info file byteOffset rate)
      rw [← hpieces] at hpriority hdeadline
      refine ⟨⟨value', hvalue', hhandle', ?_, Or.inl (by rw [hown', hlength]), fun p => ?_⟩,
        file, hfile, ?_, hdeadline⟩
      · rw [baseline_of_pieces (by rw [hown', hlength]), hown']
        rfl
      · rw [hset, List.mem_toFinset, hdeadline, windowDeadline_isSome]
      · refine List.map_congr_left fun p hp => hpriority p ?_
        rw [hlength]
        exact List.mem_range.mp hp
  | @clear files _ hfiles hpriorities hown' hset =>
      have hselected : selectedPieces info value files = base := by
        rw [← hbase, baseline, hfiles]
      rw [hselected] at hpieces hown'
      obtain ⟨e, he, hpriority, hdeadline⟩ :=
        PieceState.run_selection refit w.pieces value.handle files base
      rw [he] at hpieces
      rw [← hpieces] at hpriority hdeadline
      refine ⟨⟨value', hvalue', hhandle', ?_, Or.inl (by rw [hown', hlength]), fun p => ?_⟩,
        PieceState.list_eq hlength (by rwa [← hlength]), hdeadline⟩
      · rw [baseline_of_pieces (by rw [hown', hlength]), hown']
        rfl
      · rw [hset, hdeadline]
        simp
  | @piece pieceIndex priority _ hfirst hlast hpriorities hown' hset =>
      rw [fitted_eq (PieceState.list_length ..) hbase hown] at hown'
      have hlength' : value'.piecePriorities.length = info.numPieces := by
        rw [hown', List.length_set, hlength]
      refine ⟨⟨value', hvalue', hhandle', ?_, Or.inl hlength', fun p => ?_⟩, trivial⟩
      · rw [baseline_of_pieces hlength', hown']
        rfl
      · rw [hset, hdeadlines, hpieces]
        rfl

/-- Every run keeps the agreement, with the baseline overlaid. -/
theorem Tuned.run_follows {w₀ w : Tuned} {base : List Priority} {ops : List (Environment × Tune)}
    (h : w₀.Follows info id handle base)
    (hrun : Lts.exec (Tuned.step refit info id handle) w₀ ops = some w) :
    w.Follows info id handle (overlaid base (ops.map Prod.snd)) ∧
      ∀ l ∈ ops.getLast?, TuneLeaves info (overlaid base (ops.map Prod.snd)) w.pieces l.2 := by
  induction ops using List.reverseRecOn generalizing w with
  | nil =>
      obtain rfl : w₀ = w := Option.some.inj hrun
      exact ⟨h, fun l hl => by simp at hl⟩
  | append_singleton ops l ih =>
      obtain ⟨t, ht, htl⟩ := Lts.exec_snoc_eq_some.mp hrun
      obtain ⟨hfollows, hleaves⟩ := Tuned.step_follows (ih ht).1 htl
      have hoverlaid : overlaid base ((ops ++ [l]).map Prod.snd) =
          overlaid (overlaid base (ops.map Prod.snd)) [l.2] := by
        simp [overlaid]
      rw [hoverlaid]
      refine ⟨hfollows, fun l' hl' => ?_⟩
      obtain rfl : l = l' := by simpa using hl'
      -- the last call sets no piece of the baseline, or leaves nothing to show
      cases hop : l.2 with
      | update => simpa [hop, overlaid] using hleaves
      | clear => simpa [hop, overlaid] using hleaves
      | piece => trivial

/-- Streaming windows are history independent: after any sequence of successful calls that
    starts without a window, the job's deadlines are libtorrent's; after an update the pieces
    are those of its window over the baseline, and after a clear they are the baseline. -/
theorem windows_history_independent {w₀ w : Tuned} {value₀ : Job}
    {ops : List (Environment × Tune)} (hvalue : w₀.session.jobs.lookup id = some value₀)
    (hhandle : value₀.handle = handle)
    (hbase : w₀.pieces.list info.numPieces = baseline info value₀)
    (hjob : value₀.deadlinePieces = ∅) (hnone : ∀ p, w₀.pieces.deadline p = none)
    (hrun : Lts.exec (Tuned.step refit info id handle) w₀ ops = some w) :
    (∃ value, w.session.jobs.lookup id = some value ∧
      ∀ p, p ∈ value.deadlinePieces ↔ (w.pieces.deadline p).isSome = true) ∧
    ∀ l ∈ ops.getLast?,
      TuneLeaves info (overlaid (baseline info value₀) (ops.map Prod.snd)) w.pieces l.2 := by
  have hstart : w₀.Follows info id handle (baseline info value₀) :=
    ⟨value₀, hvalue, hhandle, rfl, Or.inr hbase, fun p => by simp [hjob, hnone]⟩
  obtain ⟨⟨value, hlookup, _, _, _, hdeadlines⟩, hleaves⟩ := Tuned.run_follows hstart hrun
  exact ⟨⟨value, hlookup, hdeadlines⟩, hleaves⟩

end

/-! ## A window that comes and goes -/

/-- libtorrent derives the pieces of `sampleInfo` from its files. -/
def sampleRefit (files : List Priority) (_ : Int → Priority) (p : Int) : Priority :=
  if 0 ≤ p then (derivedPieces sampleInfo files).getD p.toNat dontDownload else dontDownload

def tunedJob : Job where
  handle := 1
  desiredFiles := [0]
  filePriorities := [4]

/-- A torrent without a window. -/
def tunedStart : Tuned where
  session := { jobs := Finmap.singleton "a" tunedJob }
  pieces := { priority := sampleRefit [4] fun _ => dontDownload }

/-- The piece is given a priority, raised by a window, and the window is cleared. -/
def tunedRun : List (Environment × Tune) :=
  [(sampleEnvironment, .piece 0 5),
    ({ sampleEnvironment with getPiecePriorities := fun _ => [5] }, .update 0 0 1 1 1 false),
    ({ sampleEnvironment with getPiecePriorities := fun _ => [7] }, .clear)]

theorem tunedRun_restores : ∃ w, Lts.exec (Tuned.step sampleRefit sampleInfo "a" 1) tunedStart
    tunedRun = some w ∧ w.pieces.list 1 = [5] ∧ ∀ p, w.pieces.deadline p = none := by
  have hsome : (Lts.exec (Tuned.step sampleRefit sampleInfo "a" 1) tunedStart
      tunedRun).isSome = true := by decide +kernel
  obtain ⟨w, hw⟩ := Option.isSome_iff_exists.mp hsome
  have hvalue : tunedStart.session.jobs.lookup "a" = some tunedJob := Finmap.lookup_singleton_eq
  obtain ⟨_, hleaves⟩ := windows_history_independent hvalue rfl (by decide +kernel) rfl
    (fun _ => rfl) hw
  have hoverlaid : overlaid (baseline sampleInfo tunedJob) (tunedRun.map Prod.snd) = [5] := by
    decide +kernel
  rw [hoverlaid] at hleaves
  obtain ⟨hlist, hdeadlines⟩ := hleaves (_, .clear) rfl
  exact ⟨w, hw, hlist, hdeadlines⟩

end LibtorrentKit
