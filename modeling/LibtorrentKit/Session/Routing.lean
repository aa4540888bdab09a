/-
  Which job an alert belongs to.

  A session keys its jobs by the caller's identifiers, but alerts, replies and removals go by
  torrent handles. `Session.Unambiguous` says that this does no harm. Whether it holds depends
  on libtorrent: asked to add a torrent that it has, it returns the handle it has already
  given out (`AddedAsDocumented`). `routing_unambiguous_iff` says that this is all that can go
  wrong, and `sharedRun` is a run in which it does.
-/
import LibtorrentKit.Session.Adding
import LibtorrentKit.Session.Owners

namespace LibtorrentKit

open History Session

/-! ## The torrents of libtorrent -/

def IsRemoval (h : Handle) (e : Entry) : Prop :=
  ∃ deleteFiles, e = .command (.removeTorrent h deleteFiles)

def IsAddition (e : Entry) : Prop := ∃ params h, e = .command (.addTorrent params h)

/-- libtorrent has a torrent with these hashes, under the handle `h`. -/
def Present (log : List Entry) (hashes : InfoHashes) (h : Handle) : Prop :=
  ∃ t params, At log t (.command (.addTorrent params h)) ∧ params.identity = hashes ∧
    NoneAfter (IsRemoval h) log t

/-- The torrent `h` was added for `id`. -/
def AddedFor (log : List Entry) (id : String) (h : Handle) : Prop :=
  ∃ t params, At log t (.command (.addTorrent params h)) ∧ At log (t + 1) (.mail (.begin id))

/-- What libtorrent documents of `add_torrent` without `duplicate_is_error`: for a torrent that
    it has, it returns the handle it has given out; for any other, a new one. -/
def AddedAsDocumented (log : List Entry) (params : AddTorrentParams) (h : Handle) : Prop :=
  (∃ hashes, Present log hashes h ∧ params.identity.matches hashes = true) ∨
    (∀ hashes k, Present log hashes k → params.identity.matches hashes = false) ∧
      ∀ params', Entry.command (.addTorrent params' h) ∉ log

theorem present_append {log new : List Entry} (hnew : ∀ e ∈ new, ¬ IsAddition e)
    (hashes : InfoHashes) (h : Handle) :
    Present (log ++ new) hashes h ↔ Present log hashes h ∧ ∀ e ∈ new, ¬ IsRemoval h e := by
  constructor
  · rintro ⟨t, params, hat, hid, hquiet⟩
    rcases at_append.mp hat with hold | ⟨_, hat⟩
    · refine ⟨⟨t, params, hold, hid, hquiet.of_append⟩, fun e he => ?_⟩
      obtain ⟨u, hu⟩ := exists_at_of_mem he
      exact hquiet (log.length + u) e (by have := hold.lt; omega) (at_append_length hu)
    · exact absurd ⟨params, h, rfl⟩ (hnew _ hat.mem)
  · rintro ⟨⟨t, params, hat, hid, hquiet⟩, hremoval⟩
    exact ⟨t, params, hat.append new, hid, hquiet.append hremoval⟩

/-- The beginning of a call is no matter of libtorrent. -/
theorem present_called {log : List Entry} {c : CallId} {api : Api} {hashes : InfoHashes}
    {h : Handle} : Present (log ++ [.called c api]) hashes h ↔ Present log hashes h := by
  rw [present_append]
  · refine ⟨fun hp => hp.1, fun hp => ⟨hp, fun e he => ?_⟩⟩
    rintro ⟨_, rfl⟩
    cases List.mem_singleton.mp he
  · rintro e he ⟨_, _, rfl⟩
    cases List.mem_singleton.mp he

theorem AddedAsDocumented.called {log : List Entry} {params : AddTorrentParams} {h : Handle}
    (ha : AddedAsDocumented log params h) (c : CallId) (api : Api) :
    AddedAsDocumented (log ++ [.called c api]) params h := by
  rcases ha with ⟨hashes, hp, hm⟩ | ⟨hno, hfresh⟩
  · exact Or.inl ⟨hashes, present_called.mpr hp, hm⟩
  · refine Or.inr ⟨fun hashes k hk => hno hashes k (present_called.mp hk), fun p hp => ?_⟩
    rcases List.mem_append.mp hp with hp | hp
    · exact hfresh p hp
    · cases List.mem_singleton.mp hp

theorem AddedFor.append {log : List Entry} {id : String} {h : Handle} (ha : AddedFor log id h)
    (new : List Entry) : AddedFor (log ++ new) id h := by
  obtain ⟨t, params, hat, hbegin⟩ := ha
  exact ⟨t, params, hat.append new, hbegin.append new⟩

/-- With fresh handles a torrent is added for one identifier only. -/
theorem AddedFor.unique {log : List Entry} {i j : String} {h : Handle} (hfresh : FreshHandles log)
    (hi : AddedFor log i h) (hj : AddedFor log j h) : i = j := by
  obtain ⟨t, params, hat, hbegin⟩ := hi
  obtain ⟨t', params', hat', hbegin'⟩ := hj
  obtain rfl := hfresh t t' params params' h hat hat'
  simpa using hbegin.unique hbegin'

theorem FreshHandles.append {log new : List Entry} (hf : FreshHandles log)
    (hnew : ∀ e ∈ new, ¬ IsAddition e) : FreshHandles (log ++ new) := by
  intro t t' params params' h hat hat'
  rcases at_append.mp hat with hat | ⟨_, hat⟩
  · rcases at_append.mp hat' with hat' | ⟨_, hat'⟩
    · exact hf t t' params params' h hat hat'
    · exact absurd ⟨params', h, rfl⟩ (hnew _ hat'.mem)
  · exact absurd ⟨params, h, rfl⟩ (hnew _ hat.mem)

/-! ## What a step removes -/

/-- The step removes no torrent but its own, and that one when it stops the job. -/
structure RemovesOwn (value : Job) (worked : Job × List Action) : Prop where
  own : ∀ h deleteFiles, Action.command (.removeTorrent h deleteFiles) ∈ worked.2 → h = value.handle
  kept : worked.1.stopped = false → value.stopped = false ∧
    ∀ h deleteFiles, Action.command (.removeTorrent h deleteFiles) ∉ worked.2
  gone : value.stopped = false → worked.1.stopped = true →
    ∃ deleteFiles, Action.command (.removeTorrent value.handle deleteFiles) ∈ worked.2
  asks : ∀ h flush completion, Action.began h flush completion ∈ worked.2 → h = value.handle

/-- A step that neither stops the job nor removes a torrent. -/
theorem RemovesOwn.of_none {value : Job} {worked : Job × List Action}
    (hstopped : worked.1.stopped = value.stopped)
    (hnone : ∀ h deleteFiles, Action.command (.removeTorrent h deleteFiles) ∉ worked.2)
    (hasks : ∀ h flush completion, Action.began h flush completion ∈ worked.2 → h = value.handle) :
    RemovesOwn value worked where
  own := fun h d hmem => absurd hmem (hnone h d)
  kept := fun hs => ⟨hstopped ▸ hs, hnone⟩
  gone := fun hs hw => by simp [hstopped, hs] at hw
  asks := hasks

/-- A step that stops the job. -/
theorem RemovesOwn.of_stop {value : Job} {worked : Job × List Action}
    (hstopped : worked.1.stopped = true)
    (hgone : ∃ deleteFiles, Action.command (.removeTorrent value.handle deleteFiles) ∈ worked.2)
    (hown : ∀ h deleteFiles, Action.command (.removeTorrent h deleteFiles) ∈ worked.2 →
      h = value.handle)
    (hasks : ∀ h flush completion, Action.began h flush completion ∈ worked.2 → h = value.handle) :
    RemovesOwn value worked where
  own := hown
  kept := fun hs => by simp [hstopped] at hs
  gone := fun _ _ => hgone
  asks := hasks

/-- Only the handle of the job and whether it has stopped matter. -/
theorem RemovesOwn.congr {value value' : Job} {worked : Job × List Action}
    (h : RemovesOwn value worked) (hhandle : value'.handle = value.handle)
    (hstopped : value'.stopped = value.stopped) : RemovesOwn value' worked where
  own := hhandle ▸ h.own
  kept := hstopped ▸ h.kept
  gone := by
    rw [hhandle, hstopped]
    exact h.gone
  asks := hhandle ▸ h.asks

theorem Tuning.no_removal {actions : List Action} (h : Tuning actions) (k : Handle)
    (deleteFiles : Bool) : Action.command (.removeTorrent k deleteFiles) ∉ actions := by
  intro hmem
  obtain ⟨c, hc, hplain⟩ := h _ hmem
  cases hc
  cases hplain

theorem Job.Selects.keepsStopped {value value' : Job} (h : value.Selects value') :
    value'.stopped = value.stopped ∧ value'.handle = value.handle := by
  obtain ⟨d, f, p, i, r, l, rfl, _⟩ := h
  exact ⟨rfl, rfl⟩

theorem startWaitingCompletion_removesOwn (value : Job) :
    RemovesOwn value (startWaitingCompletion value) := by
  rcases startWaitingCompletion_cases value with ⟨heq, _⟩ | ⟨_, _, _, heq⟩ <;> rw [heq]
  · exact .of_none rfl (by simp) (by simp)
  · exact .of_none rfl (by simp) (by simp +contextual)

theorem Session.Work.removesOwn {slot closing : Prop} {env : Environment} {value : Job}
    {worked : Job × List Action} (h : Work slot closing env value worked) :
    RemovesOwn value worked := by
  cases h with
  | select hselects htuning =>
      exact .of_none hselects.keepsStopped.1 htuning.no_removal
        fun h f c hmem => absurd hmem (htuning.beginsNone h f c)
  | reject => exact .of_stop rfl ⟨false, by simp⟩ (by simp) (by simp)
  | begin hslot flush =>
      rw [beginCheckpoint_eq]
      refine .of_none rfl (fun h d => ?_) (by simp +contextual)
      cases flush <;> simp
  | abandon hslot hactive =>
      unfold abandonCheckpoint
      split
      · exact (startWaitingCompletion_removesOwn { value with checkpoint := {} }).congr rfl rfl
      · exact .of_none rfl (by simp) (by simp)
  | finish hslot hactive hdone =>
      exact (startWaitingCompletion_removesOwn { value with checkpoint := {} }).congr rfl rfl

theorem FinishEnd.removesOwn {env : Environment} {id : String} {value : Job} {success : Bool}
    {worked : Job × List Action} (h : FinishEnd env id value success worked) :
    RemovesOwn value worked := by
  cases h with
  | completion hcompletion hend =>
      cases hend with
      | recheck payloads metadata houtcome => exact .of_none rfl (by simp) (by simp +contextual)
      | completed payloads metadata houtcome =>
          exact .of_stop rfl ⟨false, by simp⟩ (by simp +contextual) (by simp)
      | failed failure payloads metadata houtcome =>
          exact .of_stop rfl ⟨false, by simp⟩ (by simp +contextual) (by simp)
  | answered hcompletion hactive => exact .of_none rfl (by simp) (by simp)
  | drained hcompletion hactive =>
      exact (startWaitingCompletion_removesOwn { value with checkpoint := {} }).congr rfl rfl

/-- One more action, which neither removes a torrent nor begins a round. -/
theorem RemovesOwn.cons {value : Job} {worked : Job × List Action} {a : Action}
    (h : RemovesOwn value worked)
    (hremoval : ∀ k deleteFiles, a ≠ .command (.removeTorrent k deleteFiles))
    (hbegan : ∀ k flush completion, a ≠ .began k flush completion) :
    RemovesOwn value (worked.1, a :: worked.2) where
  own := fun k d hmem => h.own k d ((List.mem_cons.mp hmem).resolve_left (hremoval k d).symm)
  kept := fun hs => ⟨(h.kept hs).1, fun k d hmem =>
    (h.kept hs).2 k d ((List.mem_cons.mp hmem).resolve_left (hremoval k d).symm)⟩
  gone := fun hs hw => (h.gone hs hw).imp fun _ => List.mem_cons_of_mem a
  asks := fun k f c hmem => h.asks k f c ((List.mem_cons.mp hmem).resolve_left (hbegan k f c).symm)

theorem AlertEnd.removesOwn {env : Environment} {id : String} {value : Job} {alert : Alert}
    {worked : Job × List Action} (h : AlertEnd env id value alert worked) :
    RemovesOwn value worked := by
  cases h with
  | metadata hkind hselects htuning =>
      refine .of_none hselects.keepsStopped.1 (fun k d hmem => ?_) fun k f c hmem => ?_
      · rcases List.mem_append.mp hmem with hmem | hmem
        · exact htuning.no_removal k d hmem
        · simp at hmem
      · rcases List.mem_append.mp hmem with hmem | hmem
        · exact absurd hmem (htuning.beginsNone k f c)
        · simp at hmem
  | rejected hkind hselects htuning =>
      refine .of_stop rfl ⟨false, ?_⟩ (fun k d hmem => ?_) fun k f c hmem => ?_
      · rw [hselects.keepsStopped.2]
        simp
      · rcases List.mem_append.mp hmem with hmem | hmem
        · exact absurd hmem (htuning.no_removal k d)
        · simp only [List.mem_cons, Action.command.injEq, reduceCtorEq, Command.removeTorrent.injEq,
            List.not_mem_nil, or_false, false_or] at hmem
          exact hmem.1.trans hselects.keepsStopped.2
      · rcases List.mem_append.mp hmem with hmem | hmem
        · exact absurd hmem (htuning.beginsNone k f c)
        · simp at hmem
  | completing hkind hcompletes hworked =>
      subst hworked
      have hstarted : RemovesOwn value (startWaitingCompletion { value with
          completionWaiting := true }) :=
        (startWaitingCompletion_removesOwn { value with completionWaiting := true }).congr rfl rfl
      have hmarked := hstarted.cons (a := .completing value.handle value.desiredFiles) (by simp)
        (by simp)
      exact hmarked.cons (a := .command (.pause value.handle)) (by simp) (by simp)
  | @saved request data hkind hphase fin hend =>
      refine .cons (hend.removesOwn.congr rfl rfl) ?_ ?_ <;> simp
  | @saveFailed request hkind hphase fin hend =>
      refine .cons (hend.removesOwn.congr rfl rfl) ?_ ?_ <;> simp
  | flushed | errorNoted | errorReported | status | ignored =>
      exact .of_none rfl (by simp) (by simp)

/-! ## The invariant -/

/-- How torrents and jobs belong together when every add has yielded a new torrent. -/
structure Session.Routed (s : Session) : Prop where
  /-- No handle has been given out twice. -/
  fresh : FreshHandles s.trace
  /-- A job holds the torrent that was added for it. -/
  owned : ∀ i value, s.jobs.lookup i = some value → AddedFor s.trace i value.handle
  /-- Rounds were begun by the job that the torrent was added for. -/
  asked : ∀ i h flush completion, Entry.began i h flush completion ∈ s.trace → AddedFor s.trace i h
  /-- The torrent of a job that has not stopped is there. -/
  present : ∀ i value, s.jobs.lookup i = some value → value.stopped = false →
    ∃ hashes, Present s.trace hashes value.handle
  /-- Every torrent that is there is held by a job that has not stopped. -/
  held : ∀ hashes h, Present s.trace hashes h →
    ∃ i value, s.jobs.lookup i = some value ∧ value.stopped = false ∧ value.handle = h

namespace Session

theorem Routed.init : Routed {} where
  fresh := fun t t' params params' h hat => by simp [At] at hat
  owned := fun i value hv => by simp at hv
  asked := fun i h flush completion he => by simp at he
  present := fun i value hv => by simp at hv
  held := fun hashes h ⟨t, params, hat, _⟩ => by simp [At] at hat

/-- Two jobs never hold the same handle. -/
theorem Routed.distinct {s : Session} (hr : s.Routed) {i j : String} {value value' : Job}
    (hi : s.jobs.lookup i = some value) (hj : s.jobs.lookup j = some value')
    (heq : value.handle = value'.handle) : i = j :=
  (hr.owned i value hi).unique hr.fresh (heq ▸ hr.owned j value' hj)

/-- The jobs stay, and what is appended neither adds nor removes a torrent nor begins a round. -/
theorem Routed.frame {s s' : Session} {new : List Entry} (hr : s.Routed)
    (hjobs : s'.jobs = s.jobs) (htrace : s'.trace = s.trace ++ new)
    (hadd : ∀ e ∈ new, ¬ IsAddition e) (hremoval : ∀ e ∈ new, ∀ h, ¬ IsRemoval h e)
    (hbegan : ∀ e ∈ new, ∀ i, ¬ IsBegan i e) : s'.Routed where
  fresh := htrace ▸ hr.fresh.append hadd
  owned := fun i value hv => htrace ▸ (hr.owned i value (hjobs ▸ hv)).append new
  asked := by
    intro i h flush completion he
    rw [htrace] at he ⊢
    rcases List.mem_append.mp he with he | he
    · exact (hr.asked i h flush completion he).append new
    · exact absurd ⟨h, flush, completion, rfl⟩ (hbegan _ he i)
  present := by
    intro i value hv hs
    obtain ⟨hashes, hp⟩ := hr.present i value (hjobs ▸ hv) hs
    rw [htrace]
    exact ⟨hashes, (present_append hadd _ _).mpr ⟨hp, fun e he => hremoval e he _⟩⟩
  held := by
    intro hashes h hp
    rw [htrace, present_append hadd] at hp
    rw [hjobs]
    exact hr.held hashes h hp.1

theorem Routed.record {s : Session} {e : Entry} (hr : s.Routed) (hadd : ¬ IsAddition e)
    (hremoval : ∀ h, ¬ IsRemoval h e) (hbegan : ∀ i, ¬ IsBegan i e) : (s.record e).Routed :=
  hr.frame rfl rfl (fun _ hx => List.mem_singleton.mp hx ▸ hadd)
    (fun _ hx => List.mem_singleton.mp hx ▸ hremoval) fun _ hx => List.mem_singleton.mp hx ▸ hbegan

/-- Work on one job, which removes at most its own torrent. -/
theorem Routed.update {s s' : Session} {env : Environment} {id : String} {value : Job}
    {worked : Job × List Action} (hr : s.Routed) (hvalue : s.jobs.lookup id = some value)
    (hown : OwnWork value worked) (hremoves : RemovesOwn value worked)
    (hupdate : s.update env id worked = some s') : s'.Routed := by
  obtain ⟨new, hu⟩ := update_spec hupdate
  have hadd : ∀ e ∈ new, ¬ IsAddition e := by
    rintro e he ⟨params, h, rfl⟩
    obtain ⟨c, hc, heq⟩ := emits_command hu.emits he ⟨_, rfl⟩
    cases heq
    exact (hown.2 _ hc).2 params h rfl
  have hremoval : ∀ e ∈ new, ∀ h, IsRemoval h e →
      ∃ d, Action.command (.removeTorrent h d) ∈ worked.2 := by
    rintro e he h ⟨d, rfl⟩
    obtain ⟨c, hc, heq⟩ := emits_command hu.emits he ⟨_, rfl⟩
    cases heq
    exact ⟨d, hc⟩
  -- what else is present, and what happens to the torrent of the job itself
  have hpresent : ∀ hashes h, Present s'.trace hashes h ↔
      Present s.trace hashes h ∧ ∀ e ∈ new, ¬ IsRemoval h e := by
    intro hashes h
    rw [hu.trace]
    exact present_append hadd hashes h
  constructor
  · exact hu.trace ▸ hr.fresh.append hadd
  · intro i v hv
    rw [hu.trace]
    refine AddedFor.append ?_ new
    rw [hu.jobs] at hv
    by_cases hi : i = id
    · subst hi
      rw [Finmap.lookup_insert, Option.some.injEq] at hv
      rw [← hv, hown.1]
      exact hr.owned i value hvalue
    · rw [Finmap.lookup_insert_of_ne _ hi] at hv
      exact hr.owned i v hv
  · intro i h flush completion he
    rw [hu.trace] at he ⊢
    refine AddedFor.append ?_ new
    rcases List.mem_append.mp he with he | he
    · exact hr.asked i h flush completion he
    · rcases emits_mem hu.emits he with ⟨a, ha, hae⟩ | ⟨_, _, heq⟩
      · cases a <;> simp only [actionEntry, Option.some.injEq, reduceCtorEq, Entry.began.injEq] at hae
        obtain ⟨rfl, rfl, rfl, rfl⟩ := hae
        rw [hremoves.asks _ _ _ ha]
        exact hr.owned id value hvalue
      · cases heq
  · intro i v hv hs
    rw [hu.jobs] at hv
    by_cases hi : i = id
    · subst hi
      rw [Finmap.lookup_insert, Option.some.injEq] at hv
      subst hv
      obtain ⟨hrunning, hnone⟩ := hremoves.kept hs
      obtain ⟨hashes, hp⟩ := hr.present i value hvalue hrunning
      rw [hown.1]
      refine ⟨hashes, (hpresent _ _).mpr ⟨hp, fun e he hrem => ?_⟩⟩
      obtain ⟨d, hd⟩ := hremoval e he _ hrem
      exact hnone _ d hd
    · rw [Finmap.lookup_insert_of_ne _ hi] at hv
      obtain ⟨hashes, hp⟩ := hr.present i v hv hs
      refine ⟨hashes, (hpresent _ _).mpr ⟨hp, fun e he hrem => hi ?_⟩⟩
      obtain ⟨d, hd⟩ := hremoval e he _ hrem
      exact hr.distinct hv hvalue (hremoves.own _ d hd)
  · intro hashes h hp
    obtain ⟨hold, hkept⟩ := (hpresent _ _).mp hp
    obtain ⟨i, v, hv, hs, rfl⟩ := hr.held hashes h hold
    rw [hu.jobs]
    by_cases hi : i = id
    · subst hi
      obtain rfl := Option.some.inj (hvalue.symm.trans hv)
      refine ⟨i, worked.1, Finmap.lookup_insert _, ?_, hown.1⟩
      by_contra hstopped
      obtain ⟨d, hd⟩ := hremoves.gone hs (by simpa using hstopped)
      exact hkept _ (emits_of_mem hu.emits hd rfl) ⟨d, rfl⟩
    · exact ⟨i, v, (Finmap.lookup_insert_of_ne _ hi).trans hv, hs, rfl⟩

theorem Moves.routed {slot : String → Prop} {s s' : Session} (h : Moves slot s s')
    (hr : s.Routed) : s'.Routed := by
  induction h with
  | refl => exact hr
  | tail _ hmove ih =>
      have hsame : ∀ {t u : Session}, t.Routed → u.jobs = t.jobs → u.trace = t.trace → u.Routed :=
        fun ht hj hu => ht.frame hj (by rw [hu, List.append_nil]) (fun e he => by cases he)
          (fun e he => by cases he) fun e he => by cases he
      cases hmove with
      | error e => exact hsame ih rfl rfl
      | wake => exact hsame ih rfl rfl
      | read env json hfront hpop =>
          obtain ⟨hjobs, _, _, new, htrace, hnew⟩ := popEvent_spec hpop
          refine ih.frame hjobs htrace (fun e he => ?_) (fun e he k => ?_) fun e he i => ?_ <;>
            obtain ⟨id, rfl⟩ := hnew e he
          · rintro ⟨_, _, heq⟩
            cases heq
          · rintro ⟨_, heq⟩
            cases heq
          · rintro ⟨_, _, _, heq⟩
            cases heq
      | work env id hvalue hwork hupdate => exact ih.update hvalue hwork.own hwork.removesOwn hupdate

theorem handleAlert_routed {s s' : Session} {env : Environment} {alert : Alert}
    (h : s.handleAlert env alert = some s') (hr : s.Routed) : s'.Routed := by
  have hrecord : ∀ o, (s.record (.alert o alert)).Routed := fun o =>
    hr.record ((by rintro ⟨_, _, heq⟩; cases heq)) ((by rintro k ⟨_, heq⟩; cases heq))
      fun i => not_began_alert
  rcases handleAlert_cases h with rfl | ⟨i, value, hvalue, _, _, hupdate⟩
  · exact hrecord none
  · have hend := onAlert_end env i value alert
    exact (hrecord (some i)).update hvalue hend.own hend.removesOwn hupdate

/-- Removing a job removes its torrent, if it still has one, and no other. -/
theorem remove_routed {s : Session} (hr : s.Routed) (id : String) (deleteFiles : Bool) :
    (s.ltkitSessionRemove id deleteFiles).1.Routed := by
  cases hvalue : s.jobs.lookup id with
  | none =>
      simp only [ltkitSessionRemove, hvalue]
      exact hr
  | some value =>
      cases hactive : value.checkpoint.active with
      | true =>
          simp only [ltkitSessionRemove, hvalue, hactive, if_true]
          exact hr.frame rfl (List.append_nil _).symm (fun e he => by cases he)
            (fun e he => by cases he) fun e he => by cases he
      | false =>
          have hjobs := @remove_jobs s id value deleteFiles hvalue hactive
          obtain ⟨new, htrace, hnew⟩ : ∃ new,
              (s.ltkitSessionRemove id deleteFiles).1.trace = s.trace ++ new ∧
              new = if value.stopped then [] else
                [.command (.removeTorrent value.handle deleteFiles)] := by
            refine ⟨_, ?_, rfl⟩
            simp only [ltkitSessionRemove, hvalue, hactive, Bool.false_eq_true, if_false]
            split
            · exact (List.append_nil _).symm
            · rfl
          have hmem : ∀ e ∈ new, value.stopped = false ∧
              e = .command (.removeTorrent value.handle deleteFiles) := by
            intro e he
            rw [hnew] at he
            split at he
            · cases he
            · next hs => exact ⟨by simpa using hs, List.mem_singleton.mp he⟩
          have hadd : ∀ e ∈ new, ¬ IsAddition e := by
            rintro e he ⟨_, _, rfl⟩
            cases (hmem _ he).2
          have hother : ∀ {i v}, i ≠ id → s.jobs.lookup i = some v →
              ∀ e ∈ new, ¬ IsRemoval v.handle e := by
            rintro i v hi hv e he ⟨d, rfl⟩
            have heq := (hmem _ he).2
            simp only [Entry.command.injEq, Command.removeTorrent.injEq] at heq
            exact hi (hr.distinct hv hvalue heq.1)
          have hlookup : ∀ {i v}, (s.ltkitSessionRemove id deleteFiles).1.jobs.lookup i = some v →
              i ≠ id ∧ s.jobs.lookup i = some v := by
            intro i v hv
            rw [hjobs] at hv
            by_cases hi : i = id
            · subst hi
              simp at hv
            · exact ⟨hi, (Finmap.lookup_erase_ne hi).symm.trans hv⟩
          constructor
          · exact htrace ▸ hr.fresh.append hadd
          · exact fun i v hv => htrace ▸ (hr.owned i v (hlookup hv).2).append new
          · intro i h flush completion he
            rw [htrace] at he ⊢
            rcases List.mem_append.mp he with he | he
            · exact (hr.asked i h flush completion he).append new
            · cases (hmem _ he).2
          · intro i v hv hs
            obtain ⟨hi, hv'⟩ := hlookup hv
            obtain ⟨hashes, hp⟩ := hr.present i v hv' hs
            rw [htrace]
            exact ⟨hashes, (present_append hadd _ _).mpr ⟨hp, hother hi hv'⟩⟩
          · intro hashes h hp
            rw [htrace, present_append hadd] at hp
            obtain ⟨i, v, hv, hs, rfl⟩ := hr.held hashes h hp.1
            rw [hjobs]
            by_cases hi : i = id
            · -- its own torrent has just been removed
              subst hi
              obtain rfl := Option.some.inj (hvalue.symm.trans hv)
              refine absurd ⟨deleteFiles, rfl⟩
                (hp.2 (.command (.removeTorrent value.handle deleteFiles)) ?_)
              simp [hnew, hs]
            · exact ⟨i, v, (Finmap.lookup_erase_ne hi).trans hv, hs, rfl⟩

/-- libtorrent has accepted a torrent that it did not have. -/
theorem insertJob_routed {s s' : Session} {env : Environment} {r : AddRequest}
    {params : AddTorrentParams} {desired : List Int} {handle : Handle} (hr : s.Routed)
    (hfree : r.identifier ∉ s.jobs)
    (hnew : ∀ params', Entry.command (.addTorrent params' handle) ∉ s.trace)
    (h : s.insertJob env r.identifier params (newJob env r params desired handle) = some s') :
    s'.Routed := by
  obtain ⟨hjobs, _, _, _, rest, htrace, hrest⟩ := insertJob_spec h
  have hsplit : s'.trace = (s.trace ++ [.command (.addTorrent params handle)]) ++
      (.mail (.begin r.identifier) :: rest) := by
    rw [htrace]
    simp [newJob]
  have hquiet : ∀ e ∈ (.mail (.begin r.identifier) :: rest : List Entry), ∃ op, e = .mail op := by
    intro e he
    rcases List.mem_cons.mp he with rfl | he
    · exact ⟨_, rfl⟩
    · exact ⟨_, hrest e he⟩
  have hadd : ∀ e ∈ (.mail (.begin r.identifier) :: rest : List Entry), ¬ IsAddition e := by
    rintro e he ⟨_, _, rfl⟩
    obtain ⟨_, heq⟩ := hquiet _ he
    cases heq
  have hremoval : ∀ e ∈ (.mail (.begin r.identifier) :: rest : List Entry), ∀ k,
      ¬ IsRemoval k e := by
    rintro e he k ⟨_, rfl⟩
    obtain ⟨_, heq⟩ := hquiet _ he
    cases heq
  have hpresent : ∀ hashes k, Present s'.trace hashes k ↔
      (k = handle ∧ hashes = params.identity) ∨ Present s.trace hashes k := by
    intro hashes k
    rw [hsplit, present_append hadd]
    constructor
    · rintro ⟨⟨t, params', hat, rfl, hquiet⟩, _⟩
      rcases at_append.mp hat with hold | ⟨hle, hat⟩
      · exact Or.inr ⟨t, params', hold, rfl, hquiet.of_append⟩
      · have heq := List.mem_singleton.mp hat.mem
        simp only [Entry.command.injEq, Command.addTorrent.injEq] at heq
        exact Or.inl ⟨heq.2, by rw [heq.1]⟩
    · rintro (⟨rfl, rfl⟩ | ⟨t, params', hat, hid, hquiet⟩)
      · exact ⟨⟨_, params, at_concat, rfl, noneAfter_of_length_le (by simp)⟩,
          fun e he => hremoval e he k⟩
      · refine ⟨⟨t, params', hat.append _, hid, hquiet.append fun e he => ?_⟩,
          fun e he => hremoval e he k⟩
        rintro ⟨_, rfl⟩
        cases List.mem_singleton.mp he
  have haddedFor : AddedFor s'.trace r.identifier handle :=
    ⟨s.trace.length, params, by rw [htrace]; exact at_append_length (t := 0) rfl,
      by rw [htrace]; exact at_append_length (t := 1) rfl⟩
  have hgrown : ∀ {i k}, AddedFor s.trace i k → AddedFor s'.trace i k := by
    intro i k ha
    rw [htrace]
    exact ha.append _
  have hother : ∀ {i}, i ≠ r.identifier → s'.jobs.lookup i = s.jobs.lookup i := by
    intro i hi
    rw [hjobs, Finmap.lookup_insert_of_ne _ hi]
  have hself : s'.jobs.lookup r.identifier = some (newJob env r params desired handle) := by
    rw [hjobs, Finmap.lookup_insert]
  constructor
  · rw [hsplit]
    refine FreshHandles.append (fun t t' p p' k hat hat' => ?_) hadd
    -- the new handle does not occur before
    rcases at_append.mp hat with hold | ⟨hle, hat⟩
    · rcases at_append.mp hat' with hold' | ⟨hle', hat'⟩
      · exact hr.fresh t t' p p' k hold hold'
      · have heq := List.mem_singleton.mp hat'.mem
        simp only [Entry.command.injEq, Command.addTorrent.injEq] at heq
        exact absurd hold.mem (heq.2 ▸ hnew p)
    · have heq := List.mem_singleton.mp hat.mem
      simp only [Entry.command.injEq, Command.addTorrent.injEq] at heq
      have hlt := hat.lt
      rcases at_append.mp hat' with hold' | ⟨hle', hat'⟩
      · exact absurd hold'.mem (heq.2 ▸ hnew p')
      · have hlt' := hat'.lt
        simp only [List.length_singleton] at hlt hlt'
        omega
  · intro i v hv
    by_cases hi : i = r.identifier
    · subst hi
      rw [hself, Option.some.injEq] at hv
      subst hv
      exact haddedFor
    · exact hgrown (hr.owned i v (hother hi ▸ hv))
  · intro i k flush completion he
    rw [hsplit, List.append_assoc] at he
    rcases List.mem_append.mp he with he | he
    · exact hgrown (hr.asked i k flush completion he)
    · rcases List.mem_append.mp he with he | he
      · cases List.mem_singleton.mp he
      · obtain ⟨_, heq⟩ := hquiet _ he
        cases heq
  · intro i v hv hs
    by_cases hi : i = r.identifier
    · subst hi
      rw [hself, Option.some.injEq] at hv
      subst hv
      exact ⟨_, (hpresent _ _).mpr (Or.inl ⟨rfl, rfl⟩)⟩
    · obtain ⟨hashes, hp⟩ := hr.present i v (hother hi ▸ hv) hs
      exact ⟨hashes, (hpresent _ _).mpr (Or.inr hp)⟩
  · intro hashes k hp
    rcases (hpresent _ _).mp hp with ⟨rfl, _⟩ | hp
    · exact ⟨r.identifier, _, hself, rfl, rfl⟩
    · obtain ⟨i, v, hv, hs, rfl⟩ := hr.held hashes k hp
      have hi : i ≠ r.identifier := by
        rintro rfl
        rw [Finmap.lookup_eq_none.mpr hfree] at hv
        cases hv
      exact ⟨i, v, (hother hi).trans hv, hs, rfl⟩

/-! ## What unambiguous routing is -/

/-- Alerts, replies and removals reach the job they are meant for. -/
structure Unambiguous (s : Session) : Prop where
  /-- Two jobs that have not stopped do not hold the same handle. -/
  distinct : ∀ i j value value', s.jobs.lookup i = some value → s.jobs.lookup j = some value' →
    value.stopped = false → value'.stopped = false → value.handle = value'.handle → i = j
  /-- An alert for the torrent of a job is handed to that job, whatever the iteration order. -/
  routes : ∀ env alert i value, s.iteratedBy env = true → s.jobs.lookup i = some value →
    value.stopped = false → env.isValid value.handle = true → value.handle = alert.handle →
    s.routed env alert = some (i, value)
  /-- `id_for` never takes the reply to a request of one job to another. -/
  answers : ∀ env i h flush completion j, Entry.began i h flush completion ∈ s.trace →
    s.idFor env h = some j → j = i
  /-- No removal has taken away the torrent of another job. -/
  present : ∀ i value, s.jobs.lookup i = some value → value.stopped = false →
    ∃ hashes, Present s.trace hashes value.handle

theorem idFor_spec {s : Session} {env : Environment} {h : Handle} {i : String}
    (hi : s.idFor env h = some i) : ∃ value, s.jobs.lookup i = some value ∧ value.handle = h := by
  have hfound := List.find?_some hi
  obtain ⟨value, hv, hh⟩ := (Option.any_eq_true _ _).mp hfound
  exact ⟨value, hv, of_decide_eq_true hh⟩

theorem Routed.unambiguous {s : Session} (hr : s.Routed) : s.Unambiguous where
  distinct := fun i j value value' hi hj _ _ heq => hr.distinct hi hj heq
  routes := by
    intro env alert i value hiterated hi hs hvalid hhandle
    have hmem : i ∈ env.jobsOrder := by
      have hkeys : i ∈ s.jobs.keys := Finmap.mem_keys.mpr (Finmap.mem_of_lookup_eq_some hi)
      simp only [iteratedBy, Bool.and_eq_true, decide_eq_true_eq] at hiterated
      exact List.mem_toFinset.mp (hiterated.1 hkeys)
    obtain ⟨j, hj⟩ := Option.isSome_iff_exists.mp (show (s.idFor env alert.handle).isSome = true from
      List.find?_isSome.mpr ⟨i, hmem, by simp [hi, hhandle]⟩)
    obtain ⟨value', hv', hh'⟩ := idFor_spec hj
    obtain rfl := hr.distinct hi hv' (hhandle.trans hh'.symm)
    simp [routed, hj, hi, hvalid]
  answers := by
    intro env i h flush completion j he hj
    obtain ⟨value, hv, rfl⟩ := idFor_spec hj
    exact (hr.owned j value hv).unique hr.fresh (hr.asked i _ flush completion he)
  present := hr.present

end Session

namespace World

/-- libtorrent answers `add_torrent` as it documents. -/
def EngineAdds (w : World) : Step → Prop
  | .call env _ (.add r) => ∀ params h, w.session.addTarget env r = some params →
      env.addTorrent params = some h → AddedAsDocumented w.session.trace params h
  | _ => True

/-- The step adds no torrent that libtorrent has: an add that reaches libtorrent and is
    accepted is for info-hashes that match none of a torrent that is there. -/
def AddsNewTorrent (w : World) : Step → Prop
  | .call env _ (.add r) => ∀ params, w.session.addTarget env r = some params →
      (env.addTorrent params).isSome = true → ∀ hashes h, Present w.session.trace hashes h →
        params.identity.matches hashes = false
  | _ => True

/-- What holds after every run that adds new torrents only. -/
structure Sorted (w : World) : Prop where
  slots : w.session.Slots
  callers : w.Callers
  routed : w.session.Routed

theorem Sorted.init : Sorted {} := by
  obtain ⟨hs, hc⟩ := run_callers (@Lts.exec_nil _ _ step ({} : World))
  exact ⟨hs, hc, .init⟩

/-- The entries at the beginning and at the end of a call leave the routing as it is. -/
theorem routed_called {s : Session} (hr : s.Routed) (c : CallId) (api : Api) :
    (s.record (.called c api)).Routed :=
  hr.record ((by rintro ⟨_, _, heq⟩; cases heq)) ((by rintro k ⟨_, heq⟩; cases heq))
    (by rintro i ⟨_, _, _, heq⟩; cases heq)

theorem routed_returned {s : Session} (hr : s.Routed) (c : CallId) (api : Api)
    (response : Response) : (s.record (.returned c api response)).Routed :=
  hr.record ((by rintro ⟨_, _, heq⟩; cases heq)) ((by rintro k ⟨_, heq⟩; cases heq))
    (by rintro i ⟨_, _, _, heq⟩; cases heq)

/-- What an add does, when libtorrent answers as it documents and the torrent is new. -/
theorem add_routed {s : Session} {env : Environment} {r : AddRequest}
    {res : Session × Response} (hr : s.Routed)
    (hengine : ∀ params h, s.addTarget env r = some params → env.addTorrent params = some h →
      AddedAsDocumented s.trace params h)
    (hnew : ∀ params, s.addTarget env r = some params → (env.addTorrent params).isSome = true →
      ∀ hashes h, Present s.trace hashes h → params.identity.matches hashes = false)
    (h : s.ltkitSessionAdd env r = some res) : res.1.Routed := by
  rcases add_target h with ⟨read, priorities, handle, t, _, _, htarget, hadd, hfree, ht, rfl⟩ |
    ⟨_, code, safeMessage, rfl⟩
  · rcases hengine _ _ htarget hadd with ⟨hashes, hp, hmatches⟩ | ⟨_, hfresh⟩
    · rw [hnew _ htarget (by rw [hadd]; rfl) hashes handle hp] at hmatches
      cases hmatches
    · exact insertJob_routed hr hfree hfresh ht
  · exact hr.frame rfl (List.append_nil _).symm (fun e he => by cases he)
      (fun e he => by cases he) fun e he => by cases he

theorem Sorted.step {w w' : World} {l : Step} (h : w.Sorted) (hengine : w.EngineAdds l)
    (hnew : w.AddsNewTorrent l) (hstep : w.step l = some w') : w'.Sorted := by
  obtain ⟨hs', hc'⟩ := step_callers h.slots h.callers hstep
  refine ⟨hs', hc', ?_⟩
  cases l with
  | alert env alert =>
      simp only [World.step, Option.ite_none_left_eq_some, Option.map_eq_some_iff] at hstep
      obtain ⟨_, s, hh, rfl⟩ := hstep
      exact handleAlert_routed hh h.routed
  | destroy =>
      obtain rfl := Option.some.inj hstep
      exact h.routed.frame rfl (List.append_nil _).symm (fun e he => by cases he)
        (fun e he => by cases he) fun e he => by cases he
  | call env c api =>
      simp only [World.step, Option.ite_none_left_eq_some, Option.map_eq_some_iff] at hstep
      obtain ⟨_, res, hres, rfl⟩ := hstep
      have hcalled := routed_called h.routed c api
      have hbody : res.1.Routed := by
        cases api with
        | add r =>
            obtain ⟨res', hadd, rfl⟩ := Option.map_eq_some_iff.mp hres
            refine add_routed hcalled (fun params k hp hk => (hengine params k hp hk).called c _)
              (fun params hp ha hashes k hk => ?_) hadd
            exact hnew params hp ha hashes k (present_called.mp hk)
        | remove id deleteFiles =>
            obtain rfl := Option.some.inj hres
            exact remove_routed hcalled id deleteFiles
        | _ =>
            exact (enter_moves_inside (fun _ => True) (by simp) (by simp) (fun _ _ => trivial)
              hres).routed hcalled
      cases hr : res.2 with
      | none => exact hbody
      | some response => exact routed_returned hbody c api response
  | resume env c =>
      obtain ⟨wait, res, hwait, hres, rfl⟩ := World.step_resume hstep
      have hm := h.callers.resumed hwait hres
      exact routed_returned (hm.routed h.routed) c wait.api res.2

/-- A torrent that libtorrent has is held by another job: adding it again makes two jobs share
    its handle. -/
theorem Sorted.step_shared {w w' : World} {l : Step} (h : w.Sorted) (hengine : w.EngineAdds l)
    (hshared : ¬ w.AddsNewTorrent l) (hstep : w.step l = some w') : ¬ w'.session.Unambiguous := by
  cases l with
  | call env c api =>
      cases api with
      | add r =>
          simp only [World.step, Option.ite_none_left_eq_some, Option.map_eq_some_iff] at hstep
          obtain ⟨_, res, hres, rfl⟩ := hstep
          obtain ⟨res', hadd, rfl⟩ := Option.map_eq_some_iff.mp hres
          simp only [AddsNewTorrent, not_forall] at hshared
          obtain ⟨params, htarget, hsome, hashes, k, hk, hmatches⟩ := hshared
          intro hun
          rcases add_target hadd with ⟨read, priorities, handle, t, _, _, htarget', haccepted, hfree,
            ht, rfl⟩ | ⟨hnone, _⟩
          · rw [addTarget_record] at htarget'
            obtain rfl := Option.some.inj (htarget.symm.trans htarget')
            rcases hengine _ _ htarget haccepted with ⟨hashes', hp, _⟩ | ⟨hno, _⟩
            · obtain ⟨i, value, hv, hs, hhandle⟩ := h.routed.held hashes' handle hp
              have hi : i ≠ r.identifier := by
                rintro rfl
                exact hfree (Finmap.mem_of_lookup_eq_some hv)
              obtain ⟨hjobs, _⟩ := insertJob_spec ht
              obtain ⟨added, hadded, hrunning, hsame⟩ : ∃ added,
                  t.jobs.lookup r.identifier = some added ∧ added.stopped = false ∧
                    added.handle = handle := ⟨_, by rw [hjobs, Finmap.lookup_insert], rfl, rfl⟩
              refine hi (hun.distinct i r.identifier value added ?_ hadded hs hrunning
                (hhandle.trans hsame.symm))
              show t.jobs.lookup i = some value
              rw [hjobs, Finmap.lookup_insert_of_ne _ hi]
              exact hv
            · exact hmatches (hno hashes k hk)
          · rw [hnone params htarget] at hsome
            cases hsome
      | _ => exact absurd trivial hshared
  | _ => exact absurd trivial hshared

/-- **Alert routing, and when it is unambiguous.** Along a run in which libtorrent answers
    `add_torrent` as it documents, alerts, replies and removals reach the job they are meant for
    exactly when no step adds a torrent that libtorrent has. -/
theorem routing_unambiguous_iff {ls : List Step} {w : World}
    (hrun : Lts.exec step {} ls = some w) (hengine : Lts.EachStep step EngineAdds {} ls) :
    Lts.EachState step (fun w => w.session.Unambiguous) {} ls ↔
      Lts.EachStep step AddsNewTorrent {} ls :=
  Lts.eachState_iff_eachStep Sorted.init (fun _ h => h.routed.unambiguous)
    (fun _ _ _ h he hnew hstep => h.step he hnew hstep)
    (fun _ _ _ h he hshared hstep => h.step_shared he hshared hstep) hrun hengine

/-- A second torrent, under the handle 2. -/
def otherEnvironment : Environment :=
  { sampleEnvironment 2 with
    loadTorrentBuffer := fun _ => some {
      infoHashes := { v1 := some "bb" }
      ti := some { sampleInfo with infoHashes := { v1 := some "bb" } } } }

/-- The torrent of `sampleEnvironment` is added for "a". -/
def firstAdd : List Step := [.call sampleEnvironment 0 (.add sampleRequest)]

/-- An add is of that torrent, under the handle 1. -/
def addsSample : Entry → Bool
  | .command (.addTorrent params h) => decide (params.identity = { v1 := some "aa" } ∧ h = 1)
  | _ => true

theorem firstAdd_added {params : AddTorrentParams} {h : Handle}
    (hmem : Entry.command (.addTorrent params h) ∈ (after firstAdd).session.trace) :
    params.identity = { v1 := some "aa" } ∧ h = 1 := by
  have hall : (after firstAdd).session.trace.all addsSample = true := by decide +kernel
  simpa [addsSample] using List.all_eq_true.mp hall _ hmem

/-- Whatever libtorrent answers with at the beginning is as documented, and new. -/
theorem firstAdd_conditions : Lts.EachStep step EngineAdds {} firstAdd ∧
    Lts.EachStep step AddsNewTorrent {} firstAdd := by
  have hempty : ∀ hashes h, ¬ Present ([] : List Entry) hashes h := by
    rintro hashes h ⟨t, params, hat, _⟩
    simp [At] at hat
  constructor
  · refine Lts.EachStep.nil.snoc fun w hw => ?_
    obtain rfl := Option.some.inj hw
    exact fun params h _ _ => Or.inr ⟨fun hashes k hk => (hempty hashes k hk).elim, by simp⟩
  · refine Lts.EachStep.nil.snoc fun w hw => ?_
    obtain rfl := Option.some.inj hw
    exact fun params _ _ hashes h hk => (hempty hashes h hk).elim

/-- Two torrents are added. -/
def sortedRun : List Step := firstAdd ++ [.call otherEnvironment 0 (.add (sampleRequest "b"))]

theorem sortedRun_unambiguous :
    Lts.EachState step (fun w => w.session.Unambiguous) {} sortedRun := by
  have htarget : ((after firstAdd).session.addTarget otherEnvironment (sampleRequest "b")).map
      AddTorrentParams.identity = some { v1 := some "bb" } := by decide +kernel
  have hno : ∀ params, (after firstAdd).session.addTarget otherEnvironment (sampleRequest "b") =
      some params → ∀ hashes h, Present (after firstAdd).session.trace hashes h →
        params.identity.matches hashes = false := by
    rintro params hp hashes h ⟨t, added, hat, rfl, _⟩
    rw [hp, Option.map_some, Option.some.injEq] at htarget
    rw [htarget, (firstAdd_added hat.mem).1]
    decide
  have hfirst : Lts.exec step {} firstAdd = some (after firstAdd) := exec_after (by decide +kernel)
  refine (routing_unambiguous_iff (exec_after (by decide +kernel)) ?_).mpr ?_
  · refine firstAdd_conditions.1.snoc fun w hw => ?_
    obtain rfl := Option.some.inj (hw.symm.trans hfirst)
    refine fun params h hp hadd => Or.inr ⟨hno params hp, fun added hmem => ?_⟩
    obtain rfl : 2 = h := Option.some.inj hadd
    exact absurd (firstAdd_added hmem).2 (by decide)
  · refine firstAdd_conditions.2.snoc fun w hw => ?_
    obtain rfl := Option.some.inj (hw.symm.trans hfirst)
    exact fun params hp _ => hno params hp

/-- The same torrent is added for two identifiers. -/
def sharedRun : List Step := firstAdd ++ [.call sampleEnvironment 0 (.add (sampleRequest "b"))]

/-- Both jobs hold its one handle. -/
theorem sharedRun_ambiguous :
    Lts.exec step {} sharedRun = some (after sharedRun) ∧
      Lts.EachStep step EngineAdds {} sharedRun ∧
      ¬ Lts.EachState step (fun w => w.session.Unambiguous) {} sharedRun := by
  have hexec : Lts.exec step {} sharedRun = some (after sharedRun) := exec_after (by decide +kernel)
  have hfirst : Lts.exec step {} firstAdd = some (after firstAdd) := exec_after (by decide +kernel)
  have hholds : ∀ id ∈ ["a", "b"], ((after sharedRun).session.jobs.lookup id).any (fun value =>
      !value.stopped && decide (value.handle = 1)) = true := by decide +kernel
  refine ⟨hexec, firstAdd_conditions.1.snoc fun w hw => ?_, fun h => ?_⟩
  · -- libtorrent returns the handle that it has given out
    obtain rfl := Option.some.inj (hw.symm.trans hfirst)
    intro params h hp hadd
    obtain rfl : 1 = h := Option.some.inj hadd
    have htarget : ((after firstAdd).session.addTarget sampleEnvironment (sampleRequest "b")).map
        AddTorrentParams.identity = some { v1 := some "aa" } := by decide +kernel
    rw [hp, Option.map_some, Option.some.injEq] at htarget
    have hpresent : ((after firstAdd).session.jobs.lookup "a").any (fun value =>
        !value.stopped && decide (value.handle = 1)) = true := by decide +kernel
    obtain ⟨value, hvalue, hflags⟩ := (Option.any_eq_true _ _).mp hpresent
    simp only [Bool.and_eq_true, Bool.not_eq_true', decide_eq_true_eq] at hflags
    have hsorted : (after firstAdd).Sorted :=
      Sorted.init.step (firstAdd_conditions.1 [] _ _ (List.prefix_refl _) rfl)
        (firstAdd_conditions.2 [] _ _ (List.prefix_refl _) rfl)
        (by simpa [firstAdd, Lts.exec_cons] using hfirst)
    obtain ⟨hashes, hp'⟩ := hsorted.routed.present "a" value hvalue hflags.1
    rw [hflags.2] at hp'
    refine Or.inl ⟨hashes, hp', ?_⟩
    obtain ⟨t, added, hat, rfl, _⟩ := hp'
    rw [htarget, (firstAdd_added hat.mem).1]
    decide
  · have hun := h sharedRun _ (List.prefix_refl _) hexec
    obtain ⟨value, hvalue, hflags⟩ := (Option.any_eq_true _ _).mp (hholds "a" (by simp))
    obtain ⟨value', hvalue', hflags'⟩ := (Option.any_eq_true _ _).mp (hholds "b" (by simp))
    simp only [Bool.and_eq_true, Bool.not_eq_true', decide_eq_true_eq] at hflags hflags'
    exact absurd (hun.distinct "a" "b" value value' hvalue hvalue' hflags.1 hflags'.1
      (hflags.2.trans hflags'.2.symm)) (by decide)

end World

end LibtorrentKit
