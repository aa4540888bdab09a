/-
  What a checkpoint call reports.

  `ltkit_session_checkpoint` is to answer `LTKIT_OK` only with the data of its own round
  (`OwnResult`), or with the cached data of a completion (`CachedResult`). It does, unless
  its wait is ended by `shutting_down` alone (`World.endsUnanswered`):
  `checkpoint_reports_data` says so for every run, and `destroyedRun` is a run that ends with
  an empty success.
-/
import LibtorrentKit.Session.Owners

namespace LibtorrentKit

open History Session

/-! ## Cached resume data -/

/-- A completion of `id` has ended with the resume data `data`, and the job is still the same. -/
def CompletedWith (log : List Entry) (id : String) (h : Handle) (data : Bytes) : Prop :=
  ∃ k request json, At log k (.accepted id ⟨h, .saveResumeData request data⟩) ∧
    At log (k + 1) (.mail (.submit id .completed json)) ∧
    NoneAfter (fun e => e = .mail (.begin id)) log k

theorem CompletedWith.append {log new : List Entry} {id : String} {h : Handle} {data : Bytes}
    (hc : CompletedWith log id h data) (hnew : ∀ e ∈ new, e ≠ .mail (.begin id)) :
    CompletedWith (log ++ new) id h data := by
  obtain ⟨k, request, json, haccepted, hmail, hquiet⟩ := hc
  exact ⟨k, request, json, haccepted.append new, hmail.append new, hquiet.append hnew⟩

/-- Resume data are cached only by a completion, which has ended. -/
def CachedOk (log : List Entry) (id : String) (o : Option Job) : Prop :=
  ∀ value, o = some value → value.finalResumeData ≠ [] →
    value.Ended ∧ CompletedWith log id value.handle value.finalResumeData

/-- An alert that completes the job caches the resume data that have just been accepted. -/
structure CachesReply (id : String) (value : Job) (alert : Alert) (worked : Job × List Action) :
    Prop where
  reply : ∃ request, alert.kind = .saveResumeData request worked.1.finalResumeData
  ended : worked.1.Ended
  actions : ∃ status, worked.2 = [.accepted alert, .enqueue .completed status,
    .command (.removeTorrent value.handle false), .enqueue .stopped (stoppedAfterCompletionJson id)]

/-- An alert leaves the cached resume data as they are, or completes the job. -/
theorem AlertEnd.final {env : Environment} {id : String} {value : Job} {alert : Alert}
    {worked : Job × List Action} (h : AlertEnd env id value alert worked) (hok : value.SlotOk) :
    worked.1.finalResumeData = value.finalResumeData ∨ CachesReply id value alert worked := by
  cases h with
  | metadata hkind hselects htuning => exact Or.inl hselects.sameFinal.2.2
  | rejected hkind hselects htuning => exact Or.inl hselects.sameFinal.2.2
  | completing hkind hcompletes hworked =>
      subst hworked
      exact Or.inl (startWaitingCompletion_sameFinal _).2.2
  | @saved request data hkind hphase fin hend =>
      cases hend with
      | completion hcompletion hend =>
          cases hend with
          | recheck payloads metadata houtcome => exact Or.inl rfl
          | failed failure payloads metadata houtcome => exact Or.inl rfl
          | completed payloads metadata houtcome =>
              have hwaiting : value.completionWaiting = false := by
                by_contra hw
                exact hok.exclusive ⟨by simpa using hw, hcompletion⟩
              exact Or.inr ⟨⟨request, hkind⟩, ⟨rfl, hwaiting, rfl⟩, _, rfl⟩
      | answered _ _ => exact Or.inl rfl
      | drained _ _ => exact Or.inl (startWaitingCompletion_sameFinal _).2.2
  | @saveFailed request hkind hphase fin hend =>
      cases hend with
      | completion hcompletion hend =>
          cases hend with
          | recheck payloads metadata houtcome => exact Or.inl rfl
          | failed failure payloads metadata houtcome => exact Or.inl rfl
          | completed payloads metadata houtcome =>
              rw [completionOutcome_completed_iff] at houtcome
              exact absurd houtcome.1 (by simp)
      | answered _ _ => exact Or.inl rfl
      | drained _ _ => exact Or.inl (startWaitingCompletion_sameFinal _).2.2
  | flushed | errorNoted | errorReported | status | ignored => exact Or.inl rfl

theorem cachedOk_invariant : JobInvariant CachedOk where
  init := fun id value hv => by cases hv
  frame := by
    intro log new id o h hnew value hv hdata
    obtain ⟨hended, hcompleted⟩ := h value hv hdata
    refine ⟨hended, hcompleted.append fun e he heq => hnew e he ?_⟩
    rw [heq]
    exact rfl
  work := by
    intro slot closing env log new id value worked _ hwork h hemits v hv hdata
    obtain rfl := Option.some.inj hv
    rw [hwork.sameFinal.2.2] at hdata
    obtain ⟨hended, hcompleted⟩ := h value rfl hdata
    refine ⟨hwork.ended hended, ?_⟩
    rw [hwork.sameFinal.2.2, hwork.own.1]
    exact hcompleted.append (emits_not_begin hemits id)
  alert := by
    intro env log new id value a worked hok hhandle hend h hemits v hv hdata
    obtain rfl := Option.some.inj hv
    rcases hend.final hok with hsame | ⟨⟨request, hkind⟩, hended, status, hactions⟩
    · rw [hsame] at hdata
      obtain ⟨hended, hcompleted⟩ := h value rfl hdata
      refine ⟨hend.ended hended, ?_⟩
      rw [hsame, hend.own.1]
      refine hcompleted.append fun e he => ?_
      rcases List.mem_cons.mp he with rfl | he
      · simp
      · exact emits_not_begin hemits id e he
    · have hquiet := emits_not_begin hemits id
      rw [hactions] at hemits
      obtain ⟨rest, rfl, hrest⟩ := emits_cons (by simp [Exact]) rfl hemits
      obtain ⟨rest, rfl, _⟩ := emits_cons (by simp [Exact]) rfl hrest
      have ha : a = ⟨worked.1.handle, .saveResumeData request worked.1.finalResumeData⟩ := by
        rw [hend.own.1, hhandle, ← hkind]
      refine ⟨hended, log.length + 1, request, status, ?_, at_append_length (t := 2) rfl,
        fun u e hlt he => ?_⟩
      · rw [← ha]
        exact at_append_length (t := 1) rfl
      · rcases at_append.mp he with he | ⟨_, he⟩
        · have := he.lt
          omega
        · rcases List.mem_cons.mp he.mem with rfl | he
          · simp
          · exact hquiet e he
  insert := by
    intro env log rest r params desired handle _ _ v hv hdata
    obtain rfl := Option.some.inj hv
    exact absurd rfl hdata
  remove := fun _ _ value hv => by cases hv

/-! ## Where a call returns -/

theorem emits_not_call {id : String} {actions : List Action} {new : List Entry}
    (h : Emits id actions new) : ∀ e ∈ new, e.isCall = false := by
  intro e he
  rcases emits_mem h he with ⟨a, _, hae⟩ | ⟨_, _, rfl⟩
  · cases a <;> simp only [actionEntry, Option.some.injEq, reduceCtorEq] at hae <;> subst hae <;> rfl
  · rfl

namespace Session

/-- The trace has grown by what happens within a call. -/
def Within (s s' : Session) : Prop :=
  ∃ new, s'.trace = s.trace ++ new ∧ ∀ e ∈ new, e.isCall = false

theorem Within.same {s s' : Session} (h : s'.trace = s.trace) : Within s s' :=
  ⟨[], by rw [h, List.append_nil], fun e he => by cases he⟩

theorem Within.trans {s t u : Session} (h : Within s t) (h' : Within t u) : Within s u := by
  obtain ⟨new, ht, hnew⟩ := h
  obtain ⟨new', ht', hnew'⟩ := h'
  refine ⟨new ++ new', by rw [ht', ht, List.append_assoc], fun e he => ?_⟩
  rcases List.mem_append.mp he with he | he
  · exact hnew e he
  · exact hnew' e he

theorem Within.record {s : Session} {e : Entry} (he : e.isCall = false) : Within s (s.record e) :=
  ⟨[e], rfl, fun _ hx => List.mem_singleton.mp hx ▸ he⟩

theorem update_within {s s' : Session} {env : Environment} {id : String}
    {worked : Job × List Action} (h : s.update env id worked = some s') : Within s s' := by
  obtain ⟨new, hu⟩ := update_spec h
  exact ⟨new, hu.trace, emits_not_call hu.emits⟩

theorem Grown.within {s s' : Session} (h : Grown Entry.FromCall s s') : Within s s' := by
  refine h.mono fun e he => ?_
  cases he <;> rfl

theorem handleAlert_within {s s' : Session} {env : Environment} {alert : Alert}
    (h : s.handleAlert env alert = some s') : Within s s' := by
  rcases handleAlert_cases h with rfl | ⟨i, value, _, _, _, hupdate⟩
  · exact .record rfl
  · exact (Within.record (e := .alert (some i) alert) rfl).trans (update_within hupdate)

/-- An entry for a return is not among those from within a call. -/
theorem Within.at_returned {s s' : Session} (h : Within s s') {k : Nat} {c : CallId} {api : Api}
    {response : Response} (hle : s.trace.length ≤ k)
    (hat : At s'.trace k (.returned c api response)) : False := by
  obtain ⟨new, htrace, hnew⟩ := h
  rw [htrace] at hat
  rcases at_append.mp hat with hat | ⟨_, hat⟩
  · have := hat.lt
    omega
  · cases hnew _ hat.mem

/-! ## Success, from the code of one call -/

theorem reply_ok {s s' : Session} {env : Environment} {m : String} {output output' : Output}
    (h : s.reply env m (.ok output) = (s', ⟨.ok, output'⟩)) : output' = output := by
  simp only [reply] at h
  split at h
  · cases h
    rfl
  · cases h

/-- Which success a checkpoint call reports after its wait. -/
theorem resumeCheckpoint_ok {s s' : Session} {env : Environment} {id : String} {g : Nat}
    {output : Output} (h : s.resumeCheckpoint env id g = some (s', ⟨.ok, output⟩)) :
    ∃ value, s.jobs.lookup id = some value ∧ value.checkpoint.error = .ok ∧
      output = .bytes value.checkpoint.data ∧ s.wakeGeneration = g ∧
      (value.checkpoint.done = true ∨ s.shuttingDown = true) := by
  unfold resumeCheckpoint at h
  dsimp only at h
  split at h
  · cases h
  · next value hvalue =>
      split at h
      · obtain ⟨t, _, ht⟩ := Option.map_eq_some_iff.mp h
        cases ht
      · next hcompleted =>
          simp only [Bool.or_eq_true, Bool.not_eq_eq_eq_not, Bool.not_true, not_or,
            Bool.not_eq_false, decide_eq_true_eq, not_not] at hcompleted
          obtain ⟨hwoken, hgeneration⟩ := hcompleted
          obtain ⟨t, _, ht⟩ := Option.map_eq_some_iff.mp h
          split at ht
          · next herror =>
              obtain ⟨_, hresponse⟩ := Prod.mk.inj ht
              exact absurd (Response.mk.inj hresponse).1 herror
          · next herror =>
              simp only [checkpointWoken, hvalue, hgeneration, ne_eq, not_true_eq_false,
                decide_false, Bool.or_false, Bool.or_eq_true] at hwoken
              exact ⟨value, hvalue, by simpa using herror, reply_ok ht, hgeneration, hwoken.symm⟩

/-- The success of a job whose completion is cached. -/
structure CachedReply (env : Environment) (value : Job) (flush : Bool) (output : Output) :
    Prop where
  stopped : value.stopped = true
  cached : value.finalResumeData ≠ []
  output : output = .bytes value.finalResumeData
  synced : flush = true → syncSelectedPayloads env.disk value.finalPayloads = true

/-- A checkpoint call may begin its request. -/
def slotFree (value : Job) : Bool :=
  !value.stopped && !value.checkpoint.active && value.checkpoint.barrier.idle
    && !value.completionCheckpoint

/-- Which success a checkpoint call reports without a wait. -/
theorem checkpoint_ok {s s' : Session} {env : Environment} {id : String} {flush : Bool}
    {timeoutMs : Int} {output : Output}
    (h : s.ltkitSessionCheckpoint env id flush timeoutMs = some (s', some ⟨.ok, output⟩)) :
    0 < timeoutMs ∧ ∃ value, s.jobs.lookup id = some value ∧
      (CachedReply env value flush output ∨ slotFree value = true ∧ s.shuttingDown = true) := by
  unfold ltkitSessionCheckpoint at h
  split at h
  · cases h
  · next htimeout =>
      refine ⟨by omega, ?_⟩
      split at h
      · cases h
      · next value hvalue =>
          refine ⟨value, hvalue, ?_⟩
          split at h
          · next hcached =>
              simp only [Bool.and_eq_true, decide_eq_true_eq] at hcached
              split at h
              · cases h
              · next hsync =>
                  obtain ⟨hs, hr⟩ := Prod.mk.inj (Option.some.inj h)
                  have hreply : s.reply env "The checkpoint response could not be allocated."
                      (.ok (.bytes value.finalResumeData)) = (s', ⟨.ok, output⟩) :=
                    Prod.ext hs (Option.some.inj hr)
                  refine Or.inl ⟨hcached.1, hcached.2, reply_ok hreply, fun hf => ?_⟩
                  simpa [hf] using hsync
          · split at h
            · cases h
            · next hstopped =>
                split at h
                · cases h
                · next hbusy =>
                    simp only [Bool.or_eq_true, not_or, Bool.not_eq_true,
                      Bool.not_eq_eq_eq_not, Bool.not_true, Bool.not_eq_false] at hbusy hstopped
                    obtain ⟨⟨hactive, hidle⟩, hcompletion⟩ := hbusy
                    obtain ⟨t, ht, h⟩ := Option.bind_eq_some_iff.mp h
                    obtain ⟨new, hu⟩ := update_spec ht
                    have hlookup : t.jobs.lookup id = some (beginCheckpoint value flush).1 := by
                      rw [hu.jobs, Finmap.lookup_insert]
                    split at h
                    · next hwoken =>
                        refine Or.inr ⟨by simp [slotFree, hstopped, hactive, hidle, hcompletion], ?_⟩
                        -- nothing but the shutdown ends the wait of a fresh request
                        rw [← hu.shuttingDown]
                        simpa [checkpointWoken, hlookup, beginCheckpoint_eq] using hwoken
                    · cases h

end Session

/-! ## The results of a run -/

/-- The call that returns `data` at `k` was made at `p` by the same thread, which has made no
    other since. Its own round began right after; the save request was issued at `q`, behind a
    flush if `flush` was asked for, and the barrier accepted `data` at `r`, with no error alert
    before and no other round of `id` since. -/
structure ReportsRound (log : List Entry) (c : CallId) (id : String) (flush : Bool)
    (timeoutMs : Int) (data : Bytes) (h : Handle) (p q r k : Nat) : Prop where
  called : At log p (.called c (.checkpoint id flush timeoutMs))
  own : ∀ u e, p < u → u < k → At log u e → ¬ CalledBy c e
  began : At log (p + 1) (.began id h flush false)
  issued : SaveIssued False log id h flush (p + 1) q
  saved : ∃ request, At log r (.accepted id ⟨h, .saveResumeData request data⟩)
  order : q < r ∧ r < k
  current : ∀ u e, p + 1 < u → u ≤ r → At log u e → ¬ IsBegan id e
  clean : ∀ u e, p + 1 < u → u < r → At log u e → ¬ IsErrorFor id e

/-- The output that is returned at `k` is the data of the call's own round. -/
def OwnResult (log : List Entry) (c : CallId) (id : String) (flush : Bool) (timeoutMs : Int)
    (output : Output) (k : Nat) : Prop :=
  ∃ data h p q r, output = .bytes data ∧ ReportsRound log c id flush timeoutMs data h p q r k

namespace World

/-- The output is the cached data of the completion of `id`; if `flush` was asked for, its
    payloads have been synced once more. -/
def CachedResult (w : World) (l : Step) (c : CallId) (id : String) (flush : Bool)
    (timeoutMs : Int) (output : Output) : Prop :=
  ∃ env value, l = .call env c (.checkpoint id flush timeoutMs) ∧
    w.session.jobs.lookup id = some value ∧ value.stopped = true ∧
    output = .bytes value.finalResumeData ∧
    CompletedWith w.session.trace id value.handle value.finalResumeData ∧
    (flush = true → value.finalPayloads ≠ [] ∧
      ∀ file ∈ value.finalPayloads, (env.disk file.path).Synced file.size)

/-- Each checkpoint call that the step ends with `LTKIT_OK` reports the data of its own round,
    or those of a completion. -/
def ReportsData (w : World) (l : Step) : Prop :=
  ∀ w', w.step l = some w' → ∀ k c id flush timeoutMs output, w.session.trace.length ≤ k →
    At w'.session.trace k (.returned c (.checkpoint id flush timeoutMs) ⟨.ok, output⟩) →
    OwnResult w'.session.trace c id flush timeoutMs output k ∨
      w.CachedResult l c id flush timeoutMs output

/-- The step ends the wait of a checkpoint call only because the session is shutting down: its
    reply has not come, and no error is on record. -/
def endsUnanswered (w : World) : Step → Bool
  | .call _ _ (.checkpoint id _ timeoutMs) =>
      w.session.shuttingDown && decide (0 < timeoutMs) && (w.session.jobs.lookup id).any slotFree
  | .resume _ c =>
      match w.calls c with
      | some ⟨.checkpoint id _ _, generation⟩ =>
          w.session.shuttingDown && decide (w.session.wakeGeneration = generation) &&
            (w.session.jobs.lookup id).any fun value =>
              !value.checkpoint.done && decide (value.checkpoint.error = .ok)
      | _ => false
  | _ => false

end World

/-- A caller that finds its round saved, without an error on record, has the data of that
    round. -/
theorem OwnRound.reports {log new : List Entry} {c : CallId} {id : String} {flush flush' : Bool}
    {timeoutMs : Int} {h : Handle} {completion : Bool} {slot : CheckpointState} {p b q r k : Nat}
    (ho : OwnRound log c id flush timeoutMs h p)
    (hs : Saved False log id h completion slot flush' b q r) (herror : slot.error = .ok)
    (hcalled : ∀ e ∈ new, ¬ CalledBy c e) (hk : log.length ≤ k) :
    ReportsRound (log ++ new) c id flush timeoutMs slot.data h p q r k := by
  have hb : b = p + 1 := Latest.unique ⟨⟨_, hs.round.began, h, flush', completion, rfl⟩,
    hs.round.latest⟩ ⟨⟨_, ho.began, h, flush, false, rfl⟩, ho.latest⟩
  subst hb
  have hflush : flush' = flush := by
    have heq := hs.round.began.unique ho.began
    simp only [Entry.began.injEq] at heq
    exact heq.2.2.1
  subst hflush
  obtain ⟨alert, request, hat, hhandle, hkind, _⟩ := hs.reply
  have hr : r < log.length := hat.lt
  -- everything but the caller's own entries is in the old part of the trace
  have hold : ∀ {u e}, u ≤ r → At (log ++ new) u e → At log u e := by
    intro u e hu he
    rcases at_append.mp he with he | ⟨hle, _⟩
    · exact he
    · omega
  have halert : alert = ⟨h, .saveResumeData request slot.data⟩ := by
    rw [← hhandle, ← hkind]
  subst halert
  exact {
    called := ho.called.append new
    own := fun u e hpu _ he => ho.own.append hcalled u e hpu he
    began := ho.began.append new
    issued := hs.issued.append new
    saved := ⟨request, hat.append new⟩
    order := ⟨hs.after, by omega⟩
    current := fun u e hpu hu he => ho.latest u e hpu (hold hu he)
    clean := fun u e hpu hu he => hs.clean herror u e hpu hu (hold (Nat.le_of_lt hu) he) }

namespace World

/-- The wait of a checkpoint call ends with `LTKIT_OK`, and its reply has come. -/
theorem resume_reports {ls : List Step} {w : World} (hrun : Lts.exec step {} ls = some w)
    {env : Environment} {c : CallId} {id : String} {flush : Bool} {timeoutMs : Int} {g : Nat}
    (hwait : w.calls c = some ⟨.checkpoint id flush timeoutMs, g⟩)
    (hanswered : w.endsUnanswered (.resume env c) = false) {s : Session} {output : Output}
    (h : w.session.resumeCheckpoint env id g = some (s, ⟨.ok, output⟩)) {new : List Entry}
    (hnew : ∀ e ∈ new, ¬ CalledBy c e) {k : Nat} (hk : w.session.trace.length ≤ k) :
    OwnResult (w.session.trace ++ new) c id flush timeoutMs output k := by
  obtain ⟨value, hvalue, herror, houtput, hgeneration, hend⟩ := resumeCheckpoint_ok h
  have hdone : value.checkpoint.done = true := by
    rcases hend with hdone | hclosing
    · exact hdone
    · simpa [endsUnanswered, hwait, hclosing, hgeneration, hvalue, herror] using hanswered
  have hok := (run_callers hrun).1 id value hvalue
  have hphase : value.checkpoint.barrier.phase = .succeeded := by
    rcases (hok.done hdone).2 with hphase | hphase
    · exact hphase
    · exact absurd herror (hok.result hphase)
  have hrounds : Rounds False w.session := rounds_of_run hrun (fun hf => hf.elim)
  obtain ⟨flush', b, q, r, hsaved⟩ := (hrounds.round id value hvalue).succeeded hphase
  obtain ⟨value', p, hvalue', hown⟩ := owners_of_run hrun c id flush timeoutMs g hwait
  obtain rfl := Option.some.inj (hvalue.symm.trans hvalue')
  exact ⟨_, _, p, q, r, houtput, hown.reports hsaved herror hnew hk⟩

/-- **No checkpoint is reported without its data, and when that holds.** Along every run in
    which no checkpoint call is ended by `shutting_down` alone, each one that returns `LTKIT_OK`
    reports the data of its own round, which was saved without an error and behind a flush if
    one was asked for; or else the cached data of the completion of its torrent, whose payloads
    it has synced if a flush was asked for. -/
theorem checkpoint_reports_data {ls : List Step}
    (hanswered : Lts.EachStep step (fun w l => w.endsUnanswered l = false) {} ls) :
    Lts.EachStep step ReportsData {} ls := by
  intro pre l w hpre hrun w' hstep k c id flush timeoutMs output hk hat
  have hl := hanswered pre l w hpre hrun
  obtain ⟨hslots, hcallers⟩ := run_callers hrun
  cases l with
  | alert env alert =>
      simp only [step, Option.ite_none_left_eq_some, Option.map_eq_some_iff] at hstep
      obtain ⟨_, s, hh, rfl⟩ := hstep
      exact ((handleAlert_within hh).at_returned hk hat).elim
  | destroy =>
      obtain rfl := Option.some.inj hstep
      exact ((Within.same rfl).at_returned hk hat).elim
  | call env d api =>
      simp only [step, Option.ite_none_left_eq_some, Option.map_eq_some_iff] at hstep
      obtain ⟨_, res, hres, rfl⟩ := hstep
      have hwithin : Within (w.session.record (.called d api)) res.1 := (enter_fromCall hres).within
      have hnone : ∀ {k}, w.session.trace.length ≤ k → ∀ c api response,
          ¬ At res.1.trace k (.returned c api response) := by
        intro k hk c api response hat
        obtain ⟨new, htrace, hnew⟩ := hwithin
        rw [htrace, record_trace] at hat
        rcases at_append.mp hat with hat | ⟨_, hat⟩
        · rcases at_append.mp hat with hat | ⟨_, hat⟩
          · have := hat.lt
            omega
          · cases List.mem_singleton.mp hat.mem
        · cases hnew _ hat.mem
      cases hr : res.2 with
      | none =>
          simp only [hr] at hat
          exact absurd hat (hnone hk _ _ _)
      | some response =>
          simp only [hr, returned, record_trace] at hat
          rcases at_append.mp hat with hat | ⟨_, hat⟩
          · exact absurd hat (hnone hk _ _ _)
          · obtain ⟨rfl, rfl, rfl⟩ := Entry.returned.inj (List.mem_singleton.mp hat.mem)
            have hres' : (w.session.record (.called c (.checkpoint id flush timeoutMs))
                ).ltkitSessionCheckpoint env id flush timeoutMs =
                  some (res.1, some ⟨.ok, output⟩) := by
              rw [← hr]
              exact hres
            obtain ⟨htimeout, value, hvalue, hcached | ⟨hfree, hclosing⟩⟩ := checkpoint_ok hres'
            · right
              have hvalue' : w.session.jobs.lookup id = some value := hvalue
              refine ⟨env, value, rfl, hvalue', hcached.stopped, hcached.output,
                (cachedOk_invariant.of_run hrun id value hvalue' hcached.cached).2, fun hf => ?_⟩
              have hsync := hcached.synced hf
              refine ⟨?_, syncSelectedPayloads_synced hsync⟩
              rintro hnil
              simp [hnil, syncSelectedPayloads] at hsync
            · have hvalue' : w.session.jobs.lookup id = some value := hvalue
              have hclosing' : w.session.shuttingDown = true := hclosing
              simp [endsUnanswered, htimeout, hvalue', hclosing', hfree] at hl
  | resume env d =>
      obtain ⟨wait, res, hwait, hres, rfl⟩ := step_resume hstep
      have hwithin : Within w.session res.1 :=
        (hcallers.resumed hwait hres).fromCall.within
      simp only [returned, record_trace] at hat ⊢
      rcases at_append.mp hat with hat | ⟨_, hat⟩
      · exact (hwithin.at_returned hk hat).elim
      · obtain ⟨rfl, hapi, hresponse⟩ := Entry.returned.inj (List.mem_singleton.mp hat.mem)
        obtain ⟨api, g⟩ := wait
        subst hapi
        left
        obtain ⟨new, htrace, hnew⟩ := hwithin
        rw [htrace, List.append_assoc]
        have hres' : w.session.resumeCheckpoint env id g = some (res.1, ⟨.ok, output⟩) := by
          rw [hresponse]
          exact hres
        refine resume_reports hrun hwait hl hres' (fun e he => ?_) hk
        rintro ⟨api, rfl⟩
        rcases List.mem_append.mp he with he | he
        · cases hnew _ he
        · cases List.mem_singleton.mp he

/-- A checkpoint call waits for its flush and for its resume data. -/
def savedRun : List Step :=
  [.call sampleEnvironment 0 (.add sampleRequest),
    .call sampleEnvironment 1 (.checkpoint "a" true 1000),
    .alert sampleEnvironment ⟨1, .cacheFlushed 7⟩,
    .alert sampleEnvironment ⟨1, .saveResumeData 10 [1, 2]⟩,
    .resume sampleEnvironment 1]

theorem savedRun_reports_data :
    (after savedRun).session.trace.getLast? =
      some (.returned 1 (.checkpoint "a" true 1000) ⟨.ok, .bytes [1, 2]⟩) ∧
      Lts.EachStep step ReportsData {} savedRun := by
  have hcheck : Lts.checkEachStep step (fun w l => !w.endsUnanswered l) {} savedRun = true := by
    decide +kernel
  refine ⟨by decide +kernel, checkpoint_reports_data ?_⟩
  exact (Lts.eachStep_of_check hcheck).mono fun w l h => by simpa using h

/-- The session is destroyed while a checkpoint call waits. -/
def destroyedRun : List Step :=
  [.call sampleEnvironment 0 (.add sampleRequest),
    .call sampleEnvironment 1 (.checkpoint "a" true 1000),
    .destroy,
    .resume sampleEnvironment 1]

/-- The call succeeds without any reply. -/
theorem destroyedRun_reports_nothing :
    Lts.exec step {} destroyedRun = some (after destroyedRun) ∧
      (after destroyedRun).session.trace.getLast? =
        some (.returned 1 (.checkpoint "a" true 1000) ⟨.ok, .bytes []⟩) ∧
      ¬ Lts.EachStep step ReportsData {} destroyedRun := by
  have hexec : Lts.exec step {} destroyedRun = some (after destroyedRun) :=
    exec_after (by decide +kernel)
  refine ⟨hexec, by decide +kernel, fun h => ?_⟩
  have hlast := h (destroyedRun.take 3) (.resume sampleEnvironment 1)
    (after (destroyedRun.take 3)) (by exact List.prefix_refl destroyedRun)
    (exec_after (by decide +kernel)) (after destroyedRun)
  have hstep : (after (destroyedRun.take 3)).step (.resume sampleEnvironment 1) =
      some (after destroyedRun) := by
    obtain ⟨w, hw, hstep⟩ := Lts.exec_snoc_eq_some.mp
      (show Lts.exec step {} (destroyedRun.take 3 ++ [.resume sampleEnvironment 1]) = _ from hexec)
    rw [after, hw]
    exact hstep
  rcases hlast hstep 8 1 "a" true 1000 (.bytes []) (by decide +kernel)
    (show (after destroyedRun).session.trace[8]? = _ by decide +kernel) with
    ⟨data, handle, p, q, r, _, hown⟩ | ⟨env, value, heq, _⟩
  · obtain ⟨request, hat⟩ := hown.saved
    have hnone : (after destroyedRun).session.trace.all (fun e =>
        match e with | .accepted _ _ => false | _ => true) = true := by decide +kernel
    simpa using List.all_eq_true.mp hnone _ hat.mem
  · cases heq

end World

end LibtorrentKit
