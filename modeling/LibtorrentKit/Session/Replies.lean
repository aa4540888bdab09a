/-
  Late replies never satisfy another request.

  `Rounds` is `RoundInv` for every job of the session, with what is needed to keep the jobs
  apart: their handles differ, and every request in the trace is on a handle that an add has
  yielded. It holds after every run (`rounds_of_run`); `late_replies_answer_no_other_request`
  is the result.
-/
import LibtorrentKit.Session.Callers
import LibtorrentKit.Session.RoundSteps

namespace LibtorrentKit

open History Session

/-! ## What a step asks of libtorrent -/

/-- The requests among the actions are on `h`, and no torrent is added. -/
def OwnRequests (h : Handle) (actions : List Action) : Prop :=
  ∀ c, Action.command c ∈ actions →
    (∀ k, IsRequestOn k (.command c) → k = h) ∧ ∀ params k, c ≠ .addTorrent params k

theorem OwnRequests.nil {h : Handle} : OwnRequests h [] := by
  intro c hc
  cases hc

theorem OwnRequests.cons {h : Handle} {a : Action} {actions : List Action}
    (ha : OwnRequests h [a]) (hs : OwnRequests h actions) : OwnRequests h (a :: actions) := by
  intro c hc
  rcases List.mem_cons.mp hc with hc | hc
  · exact ha c (hc ▸ List.mem_singleton_self _)
  · exact hs c hc

theorem OwnRequests.append {h : Handle} {xs ys : List Action} (hx : OwnRequests h xs)
    (hy : OwnRequests h ys) : OwnRequests h (xs ++ ys) := by
  intro c hc
  rcases List.mem_append.mp hc with hc | hc
  · exact hx c hc
  · exact hy c hc

theorem ownRequests_command {h : Handle} {c : Command}
    (hreq : ∀ k, IsRequestOn k (.command c) → k = h)
    (hadd : ∀ params k, c ≠ .addTorrent params k) : OwnRequests h [.command c] := by
  intro d hd
  obtain rfl : d = c := by simpa using hd
  exact ⟨hreq, hadd⟩

theorem ownRequests_plain {h : Handle} {c : Command} (hc : c.isPlain = true) :
    OwnRequests h [.command c] :=
  ownRequests_command (fun k hk => absurd hk (Command.isNeutral_of_isPlain hc k))
    fun params k he => by
      subst he
      cases hc

theorem ownRequests_remove {h k : Handle} {deleteFiles : Bool} :
    OwnRequests h [.command (.removeTorrent k deleteFiles)] :=
  ownRequests_command (fun i hi => absurd hi (Command.isNeutral_remove i)) fun params i he => by
    cases he

theorem ownRequests_request {h : Handle} (flush : Bool) :
    OwnRequests h [.command (requestCommand flush h)] := by
  refine ownRequests_command
    (fun k hk => isRequestOn_unique hk (requestCommand_isRequest flush h)) fun params k he => ?_
  cases flush <;> cases he

/-- An action that is no command asks for nothing. -/
theorem ownRequests_other {h : Handle} {a : Action} (ha : ∀ c, a ≠ .command c) :
    OwnRequests h [a] := by
  intro c hc
  exact absurd (List.mem_singleton.mp hc).symm (ha c)

theorem Tuning.ownRequests {h : Handle} {actions : List Action} (ht : Tuning actions) :
    OwnRequests h actions := by
  intro c hc
  obtain ⟨d, hd, hplain⟩ := ht _ hc
  obtain rfl : c = d := by simpa using hd
  exact ownRequests_plain hplain c (List.mem_singleton_self _)

/-- A step works on its own torrent: it keeps the handle, and asks only on it. -/
def OwnWork (value : Job) (worked : Job × List Action) : Prop :=
  worked.1.handle = value.handle ∧ OwnRequests value.handle worked.2

theorem startWaitingCompletion_own (value : Job) :
    OwnWork value (startWaitingCompletion value) := by
  rcases startWaitingCompletion_cases value with ⟨heq, _⟩ | ⟨_, _, _, heq⟩ <;> rw [heq]
  · exact ⟨rfl, .nil⟩
  · exact ⟨rfl, .cons (ownRequests_other (by simp)) (ownRequests_request true)⟩

theorem FinishEnd.own {env : Environment} {id : String} {value : Job} {success : Bool}
    {worked : Job × List Action} (h : FinishEnd env id value success worked) :
    OwnWork value worked := by
  cases h with
  | completion hcompletion hend =>
      cases hend with
      | recheck payloads metadata houtcome =>
          exact ⟨rfl, .cons (ownRequests_other (by simp)) (ownRequests_request true)⟩
      | completed payloads metadata houtcome =>
          exact ⟨rfl, .cons (ownRequests_other (by simp)) (.cons ownRequests_remove
            (ownRequests_other (by simp)))⟩
      | failed failure payloads metadata houtcome =>
          exact ⟨rfl, .cons (ownRequests_other (by simp)) ownRequests_remove⟩
  | answered hcompletion hactive => exact ⟨rfl, .nil⟩
  | drained hcompletion hactive => exact startWaitingCompletion_own { value with checkpoint := {} }

theorem Session.Work.own {slot closing : Prop} {env : Environment} {value : Job}
    {worked : Job × List Action} (h : Session.Work slot closing env value worked) :
    OwnWork value worked := by
  cases h with
  | select hselects htuning =>
      obtain ⟨d, f, p, i, r, l, rfl, _⟩ := hselects
      exact ⟨rfl, htuning.ownRequests⟩
  | reject => exact ⟨rfl, .cons (ownRequests_plain rfl) ownRequests_remove⟩
  | begin hslot flush hstopped hactive hidle hcompletion =>
      rw [beginCheckpoint_eq]
      exact ⟨rfl, .cons (ownRequests_other (by simp)) (ownRequests_request flush)⟩
  | abandon hslot hactive =>
      unfold Session.abandonCheckpoint
      split
      · exact startWaitingCompletion_own { value with checkpoint := {} }
      · exact ⟨rfl, .nil⟩
  | finish hslot hactive hdone => exact startWaitingCompletion_own { value with checkpoint := {} }

theorem AlertEnd.own {env : Environment} {id : String} {value : Job} {alert : Alert}
    {worked : Job × List Action} (h : AlertEnd env id value alert worked) :
    OwnWork value worked := by
  cases h with
  | metadata hkind hselects htuning =>
      obtain ⟨d, f, p, i, r, l, rfl, _⟩ := hselects
      exact ⟨rfl, htuning.ownRequests.append (ownRequests_other (by simp))⟩
  | rejected hkind hselects htuning =>
      obtain ⟨d, f, p, i, r, l, rfl, _⟩ := hselects
      exact ⟨rfl, htuning.ownRequests.append (.cons (ownRequests_plain rfl)
        (.cons ownRequests_remove (ownRequests_other (by simp))))⟩
  | completing hkind hcompletes hworked =>
      subst hworked
      obtain ⟨h1, h2⟩ := startWaitingCompletion_own { value with completionWaiting := true }
      exact ⟨h1, .cons (ownRequests_plain rfl) (.cons (ownRequests_other (by simp)) h2)⟩
  | flushed request hkind hphase =>
      exact ⟨rfl, .cons (ownRequests_other (by simp)) (ownRequests_request false)⟩
  | saved request data hkind hphase hend =>
      exact ⟨hend.own.1, .cons (ownRequests_other (by simp)) hend.own.2⟩
  | saveFailed request hkind hphase hend =>
      exact ⟨hend.own.1, .cons (ownRequests_other (by simp)) hend.own.2⟩
  | errorNoted hkind hphase => exact ⟨rfl, .nil⟩
  | errorReported hkind hphase => exact ⟨rfl, ownRequests_other (by simp)⟩
  | status hkind json => exact ⟨rfl, ownRequests_other (by simp)⟩
  | ignored herror hflushed hsaved hfailed => exact ⟨rfl, .nil⟩

/-- A command in the trace was among the actions. -/
theorem emits_command {id : String} {actions : List Action} {new : List Entry} {e : Entry}
    (hemits : Emits id actions new) (he : e ∈ new) (hcommand : ∃ c, e = .command c) :
    ∃ c, Action.command c ∈ actions ∧ e = .command c := by
  obtain ⟨c, rfl⟩ := hcommand
  rcases emits_mem hemits he with ⟨a, ha, hae⟩ | ⟨_, _, heq⟩
  · cases a <;> simp only [actionEntry, Option.some.injEq, reduceCtorEq, Entry.command.injEq] at hae
    exact ⟨c, hae ▸ ha, rfl⟩
  · cases heq

theorem isRequestOn_command {h : Handle} {e : Entry} (he : IsRequestOn h e) :
    ∃ c, e = .command c := by
  rcases he with rfl | rfl
  · exact ⟨_, rfl⟩
  · exact ⟨_, rfl⟩

/-! ## The other jobs -/

/-- The entries of a step on another job are foreign. -/
theorem foreign_of_emits {honest : Prop} {log new : List Entry} {id id' : String}
    {h h' : Handle} {slot : CheckpointState} {actions : List Action} (hid : id' ≠ id)
    (hh : honest → h' ≠ h) (hown : OwnRequests h actions) (hemits : Emits id actions new) :
    ∀ e ∈ new, Foreign honest log id' h' slot e := by
  intro e he
  rcases emits_mem hemits he with ⟨a, ha, hae⟩ | ⟨stored, json, rfl⟩
  · cases a <;> simp only [actionEntry, Option.some.injEq, reduceCtorEq] at hae <;> subst hae
    case command c =>
      refine ⟨not_began_command, not_accepted_command, fun _ _ => not_error_command,
        fun hho => ⟨fun hreq => hh hho ((hown c ha).1 _ hreq), ?_⟩⟩
      rintro t ⟨_, _, heq, _⟩
      cases heq
    case began handle flush completion =>
      refine ⟨?_, ?_, fun _ _ => ?_, fun _ => ⟨?_, ?_⟩⟩
      · rintro ⟨_, _, _, heq⟩
        cases heq
        exact hid rfl
      · rintro ⟨_, heq⟩
        cases heq
      · rintro ⟨_, heq, _⟩
        cases heq
      · rintro (heq | heq) <;> cases heq
      · rintro t ⟨_, _, heq, _⟩
        cases heq
    case accepted alert =>
      refine ⟨?_, ?_, fun _ _ => ?_, fun _ => unrelated_accepted⟩
      · rintro ⟨_, _, _, heq⟩
        cases heq
      · rintro ⟨_, heq⟩
        cases heq
        exact hid rfl
      · rintro ⟨_, heq, _⟩
        cases heq
    case completing handle desired => exact foreign_of_neutral trivial
    case enqueue kind json => exact foreign_of_neutral trivial
  · exact foreign_of_neutral trivial

/-- An alert that is handed to another job is foreign. -/
theorem foreign_other_alert {honest : Prop} {log : List Entry} {id id' : String} {h' : Handle}
    {slot : CheckpointState} {alert : Alert} (hid : id' ≠ id) (hh : honest → h' ≠ alert.handle)
    (hlog : honest → HonestReplies (log ++ [.alert (some id) alert])) :
    Foreign honest log id' h' slot (.alert (some id) alert) := by
  refine ⟨not_began_alert, not_accepted_alert, fun _ _ => ?_, fun hho => ⟨?_, ?_⟩⟩
  · rintro ⟨_, heq, _⟩
    cases heq
    exact hid rfl
  · rintro (heq | heq) <;> cases heq
  · rintro t ⟨_, _, heq, hreq⟩ e he hreq'
    cases heq
    obtain ⟨⟨⟨e', he', hown⟩, _⟩, _⟩ := (hlog hho).open_of_reply hreq
    exact hh hho (isRequestOn_unique hreq' (he.unique he' ▸ hown))

/-! ## The session -/

/-- The handles of the jobs differ, and requests are on handles that adds have yielded. -/
structure Handles (s : Session) : Prop where
  known : ∀ id value, s.jobs.lookup id = some value →
    ∃ t params, At s.trace t (.command (.addTorrent params value.handle))
  distinct : ∀ id id' value value', s.jobs.lookup id = some value →
    s.jobs.lookup id' = some value' → value.handle = value'.handle → id = id'
  requests : ∀ t e h, At s.trace t e → IsRequestOn h e →
    ∃ u params, At s.trace u (.command (.addTorrent params h))

/-- Every job has its round in order. -/
structure Rounds (honest : Prop) (s : Session) : Prop where
  round : ∀ id value, s.jobs.lookup id = some value → value.RoundOk honest s.trace id
  handles : honest → Handles s

/-- What is assumed of libtorrent in an honest run, and that the session is running. -/
def Fair (s : Session) : Prop :=
  HonestReplies s.trace ∧ FreshHandles s.trace ∧ s.shuttingDown = false

theorem Fair.of_grows {s s' : Session} (h : World.Grows s s') (hf : Fair s') : Fair s :=
  ⟨hf.1.anti h.trace, hf.2.1.anti h.trace, h.shuttingDown hf.2.2⟩

/-- The handles after an update of one job. -/
theorem Handles.update {s s' : Session} {id : String} {value : Job} {worked : Job × List Action}
    {new : List Entry} (h : Handles s) (pre : List Entry) (hvalue : s.jobs.lookup id = some value)
    (hjobs : s'.jobs = s.jobs.insert id worked.1) (htrace : s'.trace = s.trace ++ (pre ++ new))
    (hpre : ∀ e ∈ pre, ∀ k, ¬ IsRequestOn k e) (hown : OwnWork value worked)
    (hemits : Emits id worked.2 new) : Handles s' := by
  obtain ⟨hhandle, hown⟩ := hown
  refine ⟨?_, ?_, ?_⟩
  · refine forall_jobs_insert (s := s) hjobs ?_ fun i v _ hv => ?_
    · obtain ⟨t, params, hat⟩ := h.known _ _ hvalue
      rw [htrace, hhandle]
      exact ⟨t, params, hat.append _⟩
    · obtain ⟨t, params, hat⟩ := h.known _ _ hv
      rw [htrace]
      exact ⟨t, params, hat.append _⟩
  · have hold : ∀ i v, s'.jobs.lookup i = some v →
        ∃ v', s.jobs.lookup i = some v' ∧ v'.handle = v.handle :=
      forall_jobs_insert hjobs ⟨value, hvalue, hhandle.symm⟩ fun i v _ hv => ⟨v, hv, rfl⟩
    intro i i' v v' hv hv' heq
    obtain ⟨u, hu, huv⟩ := hold i v hv
    obtain ⟨u', hu', huv'⟩ := hold i' v' hv'
    exact h.distinct i i' u u' hu hu' (huv.trans (heq.trans huv'.symm))
  · intro t e k hat hreq
    rw [htrace] at hat ⊢
    rcases at_append.mp hat with hat | ⟨_, hat⟩
    · obtain ⟨u, params, hu⟩ := h.requests t e k hat hreq
      exact ⟨u, params, hu.append _⟩
    · rcases List.mem_append.mp hat.mem with hmem | hmem
      · exact absurd hreq (hpre e hmem k)
      · obtain ⟨u, params, hu⟩ := h.known _ _ hvalue
        obtain ⟨c, hc, rfl⟩ := emits_command hemits hmem (isRequestOn_command hreq)
        rw [(hown c hc).1 k hreq]
        exact ⟨u, params, hu.append _⟩

/-- The rounds after neutral entries and a change of the session that keeps the jobs. -/
theorem Rounds.neutral {honest : Prop} {s s' : Session} (h : Rounds honest s)
    (new : List Entry)
    (hjobs : ∀ id value, s'.jobs.lookup id = some value → s.jobs.lookup id = some value)
    (htrace : s'.trace = s.trace ++ new) (hnew : ∀ e ∈ new, e.IsNeutral) : Rounds honest s' := by
  refine ⟨fun id value hv => ?_, fun hh => ⟨fun id value hv => ?_, ?_, fun t e k hat hreq => ?_⟩⟩
  · rw [htrace]
    exact RoundInv.append (h.round id value (hjobs id value hv))
      fun e he => foreign_of_neutral (hnew e he)
  · obtain ⟨t, params, hat⟩ := (h.handles hh).known _ _ (hjobs id value hv)
    rw [htrace]
    exact ⟨t, params, hat.append _⟩
  · exact fun id id' v v' hv hv' => (h.handles hh).distinct id id' v v' (hjobs _ _ hv)
      (hjobs _ _ hv')
  · rw [htrace] at hat ⊢
    rcases at_append.mp hat with hat | ⟨_, hat⟩
    · obtain ⟨u, params, hu⟩ := (h.handles hh).requests t e k hat hreq
      exact ⟨u, params, hu.append _⟩
    · have hn := hnew e hat.mem
      rcases hreq with rfl | rfl
      · exact absurd (Or.inl rfl) (hn k)
      · exact absurd (Or.inr rfl) (hn k)

section RunInvariant

variable {honest : Prop} {s s' : Session}

theorem Rounds.work {slot closing : Prop} {env : Environment} {id : String} {value : Job}
    {worked : Job × List Action} (h : Rounds honest s) (hs : s.Slots)
    (hvalue : s.jobs.lookup id = some value)
    (hwork : Session.Work slot closing env value worked)
    (hupdate : s.update env id worked = some s') (hfair : honest → Fair s')
    (hrunning : honest → ¬ closing) : Rounds honest s' := by
  obtain ⟨new, hu⟩ := update_spec hupdate
  have htrace : s'.trace = s.trace ++ ([] ++ new) := hu.trace
  refine ⟨forall_jobs_insert hu.jobs ?_ fun i v hi hv => ?_, fun hh => ?_⟩
  · rw [hu.trace]
    refine hwork.roundOk (hs _ _ hvalue) (h.round _ _ hvalue) (fun hh => ?_) hrunning hu.emits
    exact ((hfair hh).1.anti ⟨new, hu.trace.symm⟩).toBackward
  · rw [hu.trace]
    refine RoundInv.append (h.round i v hv) (foreign_of_emits hi (fun hh heq => ?_)
      hwork.own.2 hu.emits)
    exact hi ((h.handles hh).distinct i id v value hv hvalue heq)
  · exact (h.handles hh).update [] hvalue hu.jobs htrace (fun e he => by cases he) hwork.own hu.emits

theorem Rounds.alert {env : Environment} {alert : Alert} (h : Rounds honest s)
    (hh : s.handleAlert env alert = some s') (hfair : honest → Fair s') : Rounds honest s' := by
  rcases handleAlert_cases hh with rfl | ⟨id, value, hvalue, hhandle, _, hupdate⟩
  · have hforeign : ∀ id k slot, ∀ e ∈ [Entry.alert none alert],
        Foreign honest s.trace id k slot e := by
      intro id k slot e he
      obtain rfl := List.mem_singleton.mp he
      refine ⟨not_began_alert, not_accepted_alert, fun _ _ => ?_, fun _ => ⟨?_, ?_⟩⟩
      · rintro ⟨_, heq, _⟩
        cases heq
      · rintro (heq | heq) <;> cases heq
      · rintro t ⟨_, _, heq, _⟩
        cases heq
    refine ⟨fun id value hv => RoundInv.append (h.round id value hv) (hforeign _ _ _), fun ho =>
      ⟨fun id value hv => ?_, (h.handles ho).distinct, fun t e k hat hreq => ?_⟩⟩
    · obtain ⟨t, params, hat⟩ := (h.handles ho).known id value hv
      exact ⟨t, params, hat.append _⟩
    · rcases at_append.mp hat with hat | ⟨_, hat⟩
      · obtain ⟨u, params, hu⟩ := (h.handles ho).requests t e k hat hreq
        exact ⟨u, params, hu.append _⟩
      · obtain rfl := List.mem_singleton.mp hat.mem
        rcases hreq with heq | heq <;> cases heq
  · obtain ⟨new, hu⟩ := update_spec hupdate
    have hend := onAlert_end env id value alert
    have htrace : s'.trace = s.trace ++ .alert (some id) alert :: new := by
      rw [hu.trace]
      simp
    have hlog : honest → HonestReplies (s.trace ++ .alert (some id) alert :: new) :=
      fun ho => htrace ▸ (hfair ho).1
    refine ⟨forall_jobs_insert (s := s) hu.jobs ?_ fun i v hi hv => ?_, fun ho => ?_⟩
    · rw [htrace]
      exact hend.roundOk (h.round _ _ hvalue) hhandle.symm hlog hu.emits
    · rw [htrace]
      have hne : honest → v.handle ≠ value.handle := fun ho heq =>
        hi ((h.handles ho).distinct i id v value hv hvalue heq)
      have hsplit : s.trace ++ .alert (some id) alert :: new =
          (s.trace ++ [.alert (some id) alert]) ++ new := by simp
      rw [hsplit]
      refine RoundInv.append (RoundInv.append (h.round i v hv) fun e he => ?_)
        (foreign_of_emits hi hne hend.own.2 hu.emits)
      obtain rfl := List.mem_singleton.mp he
      exact foreign_other_alert hi (hhandle ▸ hne) fun ho => (hlog ho).anti ⟨new, by simp⟩
    · refine (h.handles ho).update [.alert (some id) alert] hvalue hu.jobs htrace ?_
        hend.own hu.emits
      intro e he k hreq
      obtain rfl := List.mem_singleton.mp he
      rcases hreq with heq | heq <;> cases heq

/-- The life of a job begins with a free slot on a handle without requests. -/
theorem Rounds.life (h : Rounds honest s) (hlife : Life s s') (hfair : honest → Fair s') :
    Rounds honest s' := by
  cases hlife with
  | insert env r params desired handle hrunning hfree hcan hadd hinsert =>
      obtain ⟨hjobs, _, _, _, rest, htrace, hrest⟩ := insertJob_spec hinsert
      have hneutral : ∀ e ∈ Entry.command (.addTorrent params handle) ::
          .mail (.begin r.identifier) :: rest, e.IsNeutral := by
        intro e he
        rcases List.mem_cons.mp he with rfl | he
        · rintro k (heq | heq) <;> cases heq
        · rcases List.mem_cons.mp he with rfl | he
          · trivial
          · exact hrest e he ▸ trivial
      -- a request on the new handle would have come after an earlier add of that handle
      have hfresh : honest → ∀ u p, ¬ At s.trace u (.command (.addTorrent p handle)) := by
        intro ho u p hat
        have hnew : At s'.trace s.trace.length (.command (.addTorrent params handle)) := by
          rw [htrace]
          simp [At, newJob]
        have hold : At s'.trace u (.command (.addTorrent p handle)) := by
          rw [htrace]
          exact hat.append _
        have := (hfair ho).2.1 _ _ _ _ _ hold hnew
        have := hat.lt
        omega
      refine ⟨forall_jobs_insert hjobs ?_ fun i v _ hv => ?_, fun ho => ⟨?_, ?_, ?_⟩⟩
      · rw [htrace]
        refine RoundInv.append (RoundInv.of_none (Or.inl rfl) fun ho t hopen => ?_)
          fun e he => foreign_of_neutral (hneutral e he)
        obtain ⟨⟨e, hat, hreq⟩, _⟩ := hopen
        obtain ⟨u, p, hu⟩ := (h.handles ho).requests t e handle hat hreq
        exact hfresh ho u p hu
      · rw [htrace]
        exact RoundInv.append (h.round i v hv) fun e he => foreign_of_neutral (hneutral e he)
      · rw [htrace]
        refine forall_jobs_insert hjobs ⟨s.trace.length, params, by simp [At, newJob]⟩
          fun i v _ hv => ?_
        obtain ⟨t, p, hat⟩ := (h.handles ho).known i v hv
        exact ⟨t, p, hat.append _⟩
      · have hother : ∀ i v, s.jobs.lookup i = some v → v.handle ≠ handle := by
          rintro i v hv rfl
          obtain ⟨t, p, hat⟩ := (h.handles ho).known i v hv
          exact hfresh ho t p hat
        intro i i' v v' hv hv' heq
        rw [hjobs] at hv hv'
        by_cases hi : i = r.identifier
        · by_cases hi' : i' = r.identifier
          · exact hi.trans hi'.symm
          · subst hi
            rw [Finmap.lookup_insert] at hv
            rw [Finmap.lookup_insert_of_ne _ hi'] at hv'
            exact absurd (heq.symm.trans (Option.some.inj hv ▸ rfl)) (hother i' v' hv')
        · rw [Finmap.lookup_insert_of_ne _ hi] at hv
          by_cases hi' : i' = r.identifier
          · subst hi'
            rw [Finmap.lookup_insert] at hv'
            exact absurd (heq.trans (Option.some.inj hv' ▸ rfl)) (hother i v hv)
          · rw [Finmap.lookup_insert_of_ne _ hi'] at hv'
            exact (h.handles ho).distinct i i' v v' hv hv' heq
      · intro t e k hat hreq
        rw [htrace] at hat ⊢
        rcases at_append.mp hat with hat | ⟨_, hat⟩
        · obtain ⟨u, p, hu⟩ := (h.handles ho).requests t e k hat hreq
          exact ⟨u, p, hu.append _⟩
        · have hn := hneutral e hat.mem
          rcases hreq with rfl | rfl
          · exact absurd (Or.inl rfl) (hn k)
          · exact absurd (Or.inr rfl) (hn k)
  | remove id value deleteFiles hvalue hactive =>
      have hjobs : ∀ i v, (s.ltkitSessionRemove id deleteFiles).1.jobs.lookup i = some v →
          s.jobs.lookup i = some v := by
        intro i v hv
        rw [remove_jobs hvalue hactive] at hv
        by_cases hi : i = id
        · subst hi
          simp at hv
        · rwa [Finmap.lookup_erase_ne hi] at hv
      cases hst : value.stopped with
      | true =>
          refine h.neutral [] hjobs ?_ fun e he => by cases he
          simp [ltkitSessionRemove, hvalue, hactive, hst]
      | false =>
          refine h.neutral [.command (.removeTorrent value.handle deleteFiles)] hjobs ?_
            fun e he => ?_
          · simp [ltkitSessionRemove, hvalue, hactive, hst]
          · obtain rfl := List.mem_singleton.mp he
            exact Command.isNeutral_remove

theorem Rounds.micro (h : Rounds honest s) (hs : s.Slots) (hm : World.Micro s s')
    (hfair : honest → Fair s') : Rounds honest s' := by
  cases hm with
  | called c api =>
      refine h.neutral _ (fun id value hv => hv) rfl fun e he => ?_
      exact List.mem_singleton.mp he ▸ trivial
  | returned c api response =>
      refine h.neutral _ (fun id value hv => hv) rfl fun e he => ?_
      exact List.mem_singleton.mp he ▸ trivial
  | destroy =>
      exact h.neutral [] (fun id value hv => hv) (List.append_nil _).symm fun e he => by cases he
  | alert env alert hrunning hh => exact h.alert hh hfair
  | life hl => exact h.life hl hfair
  | move hmove =>
      cases hmove with
      | error e =>
          exact h.neutral [] (fun id value hv => hv) (List.append_nil _).symm fun e he => by cases he
      | wake =>
          exact h.neutral [] (fun id value hv => hv) (List.append_nil _).symm fun e he => by cases he
      | read env json hfront hpop =>
          have hjobs := popEvent_jobs hpop
          unfold popEvent at hpop
          split at hpop
          · obtain rfl := Option.some.inj hpop
            refine h.neutral _ (fun id value hv => hv) rfl fun e he => ?_
            obtain ⟨x, hx, rfl⟩ := Option.map_eq_some_iff.mp (Option.mem_toList.mp he)
            trivial
          · cases hpop
      | work env id hvalue hwork hupdate =>
          obtain ⟨new, hu⟩ := update_spec hupdate
          refine h.work hs hvalue hwork hupdate hfair fun ho hc => ?_
          have := (hfair ho).2.2
          rw [hu.shuttingDown, hc] at this
          cases this

theorem Rounds.init : Rounds honest {} := by
  refine ⟨fun id value hv => by simp at hv, fun _ => ⟨fun id value hv => by simp at hv,
    fun id id' v v' hv _ _ => by simp at hv, fun t e h hat _ => by simp [At] at hat⟩⟩

/-- After every run every job has its round in order. -/
theorem rounds_of_run {ls : List Step} {w : World} (hrun : Lts.exec World.step {} ls = some w)
    (hfair : honest → Fair w.session) : Rounds honest w.session :=
  World.run_invariant (fun s => honest → Fair s) (Rounds honest)
    (fun hg hf ho => (hf ho).of_grows hg) .init (fun hi hs hf hm => hi.micro hs hm hf) hrun hfair

end RunInvariant

/-! ## Accepted replies -/

/-- The reply accepted at `k` answers a request of the round that was current then: one
    issued after the last `began` before `k`. -/
def AnswersRound (log : List Entry) (k : Nat) (id : String) (alert : Alert) : Prop :=
  ∃ b r flush completion c, alert.kind.request = some r ∧ alert.answers = some c ∧
    At log b (.began id alert.handle flush completion) ∧ b < r ∧ r < k ∧ At log r (.command c) ∧
    ∀ u e, b < u → u < k → At log u e → ¬ IsBegan id e

/-- Every accepted reply answers its own round. -/
def AcceptsOwn (log : List Entry) : Prop :=
  ∀ k id alert, At log k (.accepted id alert) → AnswersRound log k id alert

theorem AnswersRound.append {log : List Entry} {k : Nat} {id : String} {alert : Alert}
    (h : AnswersRound log k id alert) (hk : k ≤ log.length) (new : List Entry) :
    AnswersRound (log ++ new) k id alert := by
  obtain ⟨b, r, flush, completion, c, hr, hc, hb, hbr, hrk, hat, hquiet⟩ := h
  refine ⟨b, r, flush, completion, c, hr, hc, hb.append new, hbr, hrk, hat.append new,
    fun u e hbu huk hu => ?_⟩
  rcases at_append.mp hu with hu | ⟨hle, _⟩
  · exact hquiet u e hbu huk hu
  · omega

/-- No reply is accepted by what is appended. -/
theorem AcceptsOwn.append {log new : List Entry} (h : AcceptsOwn log)
    (hnew : ∀ e ∈ new, ∀ id, ¬ IsAccepted id e) : AcceptsOwn (log ++ new) := by
  intro k id alert hat
  rcases at_append.mp hat with hat | ⟨_, hat⟩
  · exact (h k id alert hat).append hat.lt.le new
  · exact absurd ⟨alert, rfl⟩ (hnew _ hat.mem id)

/-- The actions accept no reply. -/
def AcceptsNone (actions : List Action) : Prop := ∀ alert, Action.accepted alert ∉ actions

theorem AcceptsNone.emits {id : String} {actions : List Action} {new : List Entry}
    (h : AcceptsNone actions) (hemits : Emits id actions new) :
    ∀ e ∈ new, ∀ i, ¬ IsAccepted i e := by
  rintro e he i ⟨alert, rfl⟩
  rcases emits_mem hemits he with ⟨a, ha, hae⟩ | ⟨_, _, heq⟩
  · cases a <;> simp only [actionEntry, Option.some.injEq, reduceCtorEq, Entry.accepted.injEq] at hae
    exact h _ (hae.2 ▸ ha)
  · cases heq

theorem Tuning.acceptsNone {actions : List Action} (h : Tuning actions) : AcceptsNone actions := by
  intro alert ha
  obtain ⟨_, heq, _⟩ := h _ ha
  cases heq

theorem startWaitingCompletion_acceptsNone (value : Job) :
    AcceptsNone (startWaitingCompletion value).2 := by
  rcases startWaitingCompletion_cases value with ⟨heq, _⟩ | ⟨_, _, _, heq⟩ <;> rw [heq] <;>
    simp [AcceptsNone]

theorem FinishEnd.acceptsNone {env : Environment} {id : String} {value : Job} {success : Bool}
    {worked : Job × List Action} (h : FinishEnd env id value success worked) :
    AcceptsNone worked.2 := by
  cases h with
  | completion hcompletion hend => cases hend <;> simp [AcceptsNone]
  | answered hcompletion hactive => simp [AcceptsNone]
  | drained hcompletion hactive => exact startWaitingCompletion_acceptsNone _

theorem Session.Work.acceptsNone {slot closing : Prop} {env : Environment} {value : Job}
    {worked : Job × List Action} (h : Session.Work slot closing env value worked) :
    AcceptsNone worked.2 := by
  cases h with
  | select hselects htuning => exact htuning.acceptsNone
  | reject => simp [AcceptsNone]
  | begin hslot flush hstopped hactive hidle hcompletion =>
      rw [beginCheckpoint_eq]
      simp [AcceptsNone]
  | abandon hslot hactive =>
      unfold Session.abandonCheckpoint
      split
      · exact startWaitingCompletion_acceptsNone _
      · simp [AcceptsNone]
  | finish hslot hactive hdone => exact startWaitingCompletion_acceptsNone _

/-- An alert accepts itself first, or nothing. -/
theorem AlertEnd.accepts {env : Environment} {id : String} {value : Job} {alert : Alert}
    {worked : Job × List Action} (h : AlertEnd env id value alert worked) :
    AcceptsNone worked.2 ∨ ∃ actions, worked.2 = .accepted alert :: actions ∧ AcceptsNone actions ∧
      alert.kind.request.isSome = true := by
  cases h with
  | metadata hkind hselects htuning =>
      refine Or.inl fun a ha => ?_
      rcases List.mem_append.mp ha with ha | ha
      · exact htuning.acceptsNone a ha
      · simp at ha
  | rejected hkind hselects htuning =>
      refine Or.inl fun a ha => ?_
      rcases List.mem_append.mp ha with ha | ha
      · exact htuning.acceptsNone a ha
      · simp at ha
  | completing hkind hcompletes hworked =>
      subst hworked
      refine Or.inl fun a ha => ?_
      simp only [List.mem_cons, reduceCtorEq, false_or] at ha
      exact startWaitingCompletion_acceptsNone _ a ha
  | flushed request hkind hphase =>
      exact Or.inr ⟨_, rfl, by simp [AcceptsNone], by rw [hkind]; rfl⟩
  | saved request data hkind hphase hend =>
      exact Or.inr ⟨_, rfl, hend.acceptsNone, by rw [hkind]; rfl⟩
  | saveFailed request hkind hphase hend =>
      exact Or.inr ⟨_, rfl, hend.acceptsNone, by rw [hkind]; rfl⟩
  | errorNoted hkind hphase => exact Or.inl (by simp [AcceptsNone])
  | errorReported hkind hphase => exact Or.inl (by simp [AcceptsNone])
  | status hkind json => exact Or.inl (by simp [AcceptsNone])
  | ignored herror hflushed hsaved hfailed => exact Or.inl (by simp [AcceptsNone])

/-- An honest reply that a job's barrier accepts answers the job's own round. -/
theorem RoundInv.answersRound {honest : Prop} {log : List Entry} {id : String} {h : Handle}
    {completion : Bool} {slot : CheckpointState} {alert : Alert}
    (hr : RoundInv honest log id h completion slot) (hh : honest)
    (hlog : HonestReplies (log ++ [.alert (some id) alert])) (hhandle : alert.handle = h)
    (hreq : alert.kind.request.isSome = true) :
    AnswersRound (log ++ [.alert (some id) alert]) (log.length + 1) id alert := by
  subst hhandle
  obtain ⟨r, hreq⟩ := Option.isSome_iff_exists.mp hreq
  obtain ⟨hopen, c, hc, hat⟩ := hlog.open_of_reply hreq
  obtain ⟨b, flush, hb, hbr, _⟩ := hr.round_of_open hh hopen
  refine ⟨b, r, flush, completion, c, hreq, hc, hb.began.append _, hbr, ?_, hat.append _,
    fun u e hbu huk hu => ?_⟩
  · have := hat.lt
    omega
  · rcases at_append.mp hu with hu | ⟨_, hu⟩
    · exact hb.latest u e hbu hu
    · obtain rfl := List.mem_singleton.mp hu.mem
      exact not_began_alert

theorem AcceptsOwn.micro {s s' : Session} (h : AcceptsOwn s.trace) (hr : Rounds True s)
    (hm : World.Micro s s') (hfair : Fair s') : AcceptsOwn s'.trace := by
  have hsilent : ∀ new, s'.trace = s.trace ++ new →
      (∀ e ∈ new, ∀ id, ¬ IsAccepted id e) → AcceptsOwn s'.trace := by
    intro new htrace hnew
    rw [htrace]
    exact h.append hnew
  have hsame : s'.trace = s.trace → AcceptsOwn s'.trace := fun htrace =>
    hsilent [] (by rw [htrace, List.append_nil]) fun e he => by cases he
  have hno : ∀ {e : Entry}, e.IsNeutral → ∀ id, ¬ IsAccepted id e := by
    rintro e he id ⟨_, rfl⟩
    exact he
  cases hm with
  | called c api =>
      exact hsilent _ rfl fun e he => hno (List.mem_singleton.mp he ▸ trivial)
  | returned c api response =>
      exact hsilent _ rfl fun e he => hno (List.mem_singleton.mp he ▸ trivial)
  | destroy => exact hsame rfl
  | alert env alert hrunning hh =>
      rcases handleAlert_cases hh with rfl | ⟨id, value, hvalue, hhandle, _, hupdate⟩
      · refine hsilent _ rfl fun e he id => ?_
        obtain rfl := List.mem_singleton.mp he
        exact not_accepted_alert
      · obtain ⟨new, hu⟩ := update_spec hupdate
        have hlog : HonestReplies (s.trace ++ [.alert (some id) alert]) :=
          hfair.1.anti ⟨new, hu.trace.symm⟩
        have halert : AcceptsOwn (s.trace ++ [.alert (some id) alert]) := by
          refine h.append fun e he i => ?_
          obtain rfl := List.mem_singleton.mp he
          exact not_accepted_alert
        have htrace : s'.trace = (s.trace ++ [.alert (some id) alert]) ++ new := hu.trace
        rw [htrace]
        rcases (onAlert_end env id value alert).accepts with hnone | ⟨actions, heq, hnone, hreq⟩
        · exact halert.append (hnone.emits hu.emits)
        · have hemits := hu.emits
          rw [heq] at hemits
          obtain ⟨rest, rfl, hrest⟩ := emits_cons (by simp [Exact]) rfl hemits
          have hown := RoundInv.answersRound (hr.round id value hvalue) trivial hlog hhandle.symm
            hreq
          have hsplit : (s.trace ++ [.alert (some id) alert]) ++ .accepted id alert :: rest =
              ((s.trace ++ [.alert (some id) alert]) ++ [.accepted id alert]) ++ rest := by simp
          rw [hsplit]
          refine AcceptsOwn.append (fun k i a hat => ?_) (hnone.emits hrest)
          rcases at_append.mp hat with hat | ⟨hle, hat⟩
          · exact (halert k i a hat).append hat.lt.le _
          · have hlt := hat.lt
            simp only [List.length_append, List.length_singleton] at hle hlt
            obtain rfl : k = s.trace.length + 1 := by omega
            obtain ⟨rfl, rfl⟩ : i = id ∧ a = alert := by simpa using hat.mem
            exact hown.append (by simp) _
  | life hl =>
      cases hl with
      | insert env r params desired handle hrunning hfree hcan hadd hinsert =>
          obtain ⟨_, _, _, _, rest, htrace, hrest⟩ := insertJob_spec hinsert
          refine hsilent _ htrace fun e he id => ?_
          rcases List.mem_cons.mp he with rfl | he
          · exact not_accepted_command
          · rcases List.mem_cons.mp he with rfl | he
            · rintro ⟨_, heq⟩
              cases heq
            · obtain rfl := hrest e he
              rintro ⟨_, heq⟩
              cases heq
      | remove id value deleteFiles hvalue hactive =>
          cases hst : value.stopped with
          | true => exact hsame (by simp [ltkitSessionRemove, hvalue, hactive, hst])
          | false =>
              refine hsilent [.command (.removeTorrent value.handle deleteFiles)]
                (by simp [ltkitSessionRemove, hvalue, hactive, hst]) fun e he i => ?_
              obtain rfl := List.mem_singleton.mp he
              exact not_accepted_command
  | move hmove =>
      cases hmove with
      | error e => exact hsame rfl
      | wake => exact hsame rfl
      | read env json hfront hpop =>
          unfold popEvent at hpop
          split at hpop
          · obtain rfl := Option.some.inj hpop
            refine hsilent _ rfl fun e he i => ?_
            obtain ⟨x, hx, rfl⟩ := Option.map_eq_some_iff.mp (Option.mem_toList.mp he)
            rintro ⟨_, heq⟩
            cases heq
          · cases hpop
      | work env id hvalue hwork hupdate =>
          obtain ⟨new, hu⟩ := update_spec hupdate
          exact hsilent _ hu.trace (hwork.acceptsNone.emits hu.emits)

/-- **Late replies never satisfy another request.** In every run of a session that is not
    shutting down, with an engine that answers only what it was asked: a job has at most one
    unanswered request on its handle, a flush exactly while its barrier is flushing and a save
    exactly while it is saving; and every reply that a barrier has accepted answers a request
    of the round that was current then. -/
theorem late_replies_answer_no_other_request {ls : List Step} {w : World}
    (hrun : Lts.exec World.step {} ls = some w) (hhonest : HonestReplies w.session.trace)
    (hfresh : FreshHandles w.session.trace) (hrunning : w.session.shuttingDown = false) :
    (∀ id value, w.session.jobs.lookup id = some value →
      (value.checkpoint.barrier.phase = .flushing →
        ∃ q, At w.session.trace q (.command (.flushCache value.handle)) ∧
          ∀ t, Open w.session.trace value.handle t ↔ t = q) ∧
      (value.checkpoint.barrier.phase = .saving →
        ∃ q, At w.session.trace q (.command (.saveResumeData value.handle)) ∧
          ∀ t, Open w.session.trace value.handle t ↔ t = q) ∧
      (value.checkpoint.barrier.pending = false →
        ∀ t, ¬ Open w.session.trace value.handle t)) ∧
    ∀ k id alert, At w.session.trace k (.accepted id alert) →
      AnswersRound w.session.trace k id alert := by
  have hfair : Fair w.session := ⟨hhonest, hfresh, hrunning⟩
  have hinv : Rounds True w.session ∧ AcceptsOwn w.session.trace :=
    World.run_invariant Fair (fun s => Rounds True s ∧ AcceptsOwn s.trace)
      (fun hg hf => hf.of_grows hg) ⟨.init, fun k id alert hat => by simp [At] at hat⟩
      (fun hi hs hf hm => ⟨hi.1.micro hs hm fun _ => hf, hi.2.micro hi.1 hm hf⟩) hrun hfair
  refine ⟨fun id value hvalue => ⟨fun hp => ?_, fun hp => ?_, fun hp => ?_⟩, hinv.2⟩
  · obtain ⟨b, hb⟩ := (hinv.1.round id value hvalue).flushing hp
    exact ⟨b + 1, hb.round.first, hb.only trivial⟩
  · obtain ⟨flush, b, q, hq⟩ := (hinv.1.round id value hvalue).saving hp
    exact ⟨q, hq.issued.request, hq.only trivial⟩
  · exact (hinv.1.round id value hvalue).none hp trivial

/-- A caller's checkpoint, up to the reply to its flush. -/
def fenceRun : List Step :=
  [.call sampleEnvironment 0 (.add sampleRequest),
    .call sampleEnvironment 1 (.checkpoint "a" true 1000),
    .alert sampleEnvironment ⟨1, .cacheFlushed 7⟩]

theorem fenceRun_answers_own_flush :
    AnswersRound (World.after fenceRun).session.trace 9 "a" ⟨1, .cacheFlushed 7⟩ :=
  (late_replies_answer_no_other_request (World.exec_after (by decide +kernel))
    (honestReplies_of_check (by decide +kernel)) (freshHandles_of_check (by decide +kernel))
    (by decide +kernel)).2 9 "a" ⟨1, .cacheFlushed 7⟩
    (show (World.after fenceRun).session.trace[9]? = some (.accepted "a" ⟨1, .cacheFlushed 7⟩) by
      decide +kernel)

end LibtorrentKit
