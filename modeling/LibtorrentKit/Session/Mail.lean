/-
  What the session puts into its mailbox, and what `next_event` takes out of it.

  `Session.Delivers` carries the refinement of the mailbox through the session: its queues
  hold what was submitted, as long as an error is merged only into a run with its own payload.
  Two kinds of error share the queue of a job, code 12 and code 16, and nothing in the source
  keeps them apart; `payloads_delivered_iff` says exactly which steps mix them up.
-/
import LibtorrentKit.Mailbox.Delivery
import LibtorrentKit.Session.Callers
import LibtorrentKit.Session.Verdicts

namespace LibtorrentKit

open Session

/-! ## The log of the mailbox -/

/-- What an entry says about the mailbox. -/
def Entry.mail? : Entry → Option MailEvent
  | .mail event => some event
  | _ => none

/-- What went through the mailbox. -/
def mails (log : List Entry) : List MailEvent := log.filterMap Entry.mail?

@[simp] theorem mails_append (log new : List Entry) :
    mails (log ++ new) = mails log ++ mails new :=
  List.filterMap_append

theorem mails_eq_nil {log : List Entry} (h : ∀ e ∈ log, e.mail? = none) : mails log = [] :=
  List.filterMap_eq_nil_iff.mpr h

theorem mails_mergedEntry (m : EventMailbox) (id : String) (kind : Kind) (json : String) :
    mails (Session.mergedEntry m id kind json) = [] := by
  refine mails_eq_nil fun e he => ?_
  obtain ⟨stored, json, rfl⟩ := mergedEntry_merges m id kind json e he
  rfl

/-! ## The invariant -/

/-- An error that may be unread: a recoverable one, or the failure of an ended completion. -/
def Session.MayBeUnread (s : Session) (id json : String) : Prop :=
  json = recoverableErrorJson id ∨ ∀ value, s.jobs.lookup id = some value → value.Ended

/-- The mailbox holds what was submitted to it, and every error was merged into a run with its
    own payload. -/
structure Session.Delivers (s : Session) : Prop where
  wellFormed : s.events.WellFormed
  refines : ∃ f, Lts.exec (KeyedFifo.step Kind.oneShot) KeyedFifo.State.empty (mails s.trace)
    = some f ∧ s.events.Refines f
  agree : ∀ id stored json, Entry.merged id stored json ∈ s.trace → stored = json
  unread : s.events.ErrorRuns s.MayBeUnread

namespace Session

theorem Delivers.init : Delivers {} where
  wellFormed := .empty
  refines := ⟨_, rfl, .empty⟩
  agree := by simp
  unread := fun id job p e hj _ _ _ => by simp at hj

/-- A change that leaves the mailbox alone. -/
theorem Delivers.same {s s' : Session} (h : s.Delivers) (new : List Entry)
    (hevents : s'.events = s.events) (htrace : s'.trace = s.trace ++ new)
    (hmail : ∀ e ∈ new, e.mail? = none)
    (hmerged : ∀ e ∈ new, ∀ id stored json, e ≠ .merged id stored json)
    (hjobs : ∀ id json, s.MayBeUnread id json → s'.MayBeUnread id json) : s'.Delivers where
  wellFormed := hevents ▸ h.wellFormed
  refines := by
    rw [htrace, mails_append, mails_eq_nil hmail, List.append_nil, hevents]
    exact h.refines
  agree := by
    intro id stored json hmem
    rw [htrace] at hmem
    rcases List.mem_append.mp hmem with hmem | hmem
    · exact h.agree id stored json hmem
    · exact absurd rfl (hmerged _ hmem id stored json)
  unread := hevents ▸ h.unread.mono hjobs

/-- An action that is neither a submission nor a status leaves the mailbox alone. -/
def Silent (a : Action) : Prop :=
  (∀ kind json, a ≠ .enqueue kind json) ∧ ∀ json, a ≠ .status json

theorem perform_silent {s s' : Session} {env : Environment} {id : String} {a : Action}
    (ha : Silent a) (h : s.perform env id a = some s') :
    s'.events = s.events ∧ ∃ e, s'.trace = s.trace ++ [e] ∧ e.mail? = none ∧
      ∀ i stored json, e ≠ .merged i stored json := by
  cases a with
  | enqueue kind json => exact absurd rfl (ha.1 kind json)
  | status json => exact absurd rfl (ha.2 json)
  | command c | began handle flush completion | accepted alert | completing handle desired =>
      obtain rfl := Option.some.inj h
      exact ⟨rfl, _, rfl, rfl, fun _ _ _ => by simp⟩

/-- One action keeps the mailbox faithful; an error has to agree with the unread run. -/
theorem Delivers.perform {s s' : Session} {env : Environment} {id : String} {a : Action}
    (h : s.Delivers) (herror : ∀ json, a = .enqueue .error json →
      s.events.asserted id .error json ∧ s.MayBeUnread id json)
    (hp : s.perform env id a = some s') : s'.Delivers := by
  have hjobs : ∀ i json, s.MayBeUnread i json → s'.MayBeUnread i json := by
    unfold MayBeUnread
    rw [(perform_spec hp).1]
    exact fun _ _ h => h
  have hsilent : Silent a → s'.Delivers := by
    intro ha
    obtain ⟨hevents, e, htrace, hmail, hmerged⟩ := perform_silent ha hp
    exact h.same [e] hevents htrace (by simpa using hmail) (by simpa using hmerged) hjobs
  cases a with
  | command c => exact hsilent ⟨by simp, by simp⟩
  | began handle flush completion => exact hsilent ⟨by simp, by simp⟩
  | accepted alert => exact hsilent ⟨by simp, by simp⟩
  | completing handle desired => exact hsilent ⟨by simp, by simp⟩
  | enqueue kind json =>
      simp only [Session.perform, enqueue] at hp
      split at hp
      · next events hc =>
          obtain rfl := Option.some.inj hp
          have hassert : s.events.asserted id kind json := by
            intro hk run hr
            subst hk
            exact (herror json rfl).1 rfl run hr
          refine ⟨h.wellFormed.critical hc, ?_, ?_, ?_⟩
          · have hlog : mails (s.trace ++ mergedEntry s.events id kind json ++
                [Entry.mail (.submit id kind json)]) = mails s.trace ++ [.submit id kind json] := by
              simp only [mails_append, mails_mergedEntry, List.append_nil]
              rfl
            dsimp only
            rw [hlog]
            exact MailboxTrace.refines_concat h.refines fun f hf =>
              hf.critical h.wellFormed hassert hc
          · intro i stored j hmem
            dsimp only at hmem
            rw [List.append_assoc] at hmem
            rcases List.mem_append.mp hmem with hmem | hmem
            · exact h.agree i stored j hmem
            · rcases List.mem_append.mp hmem with hmem | hmem
              · unfold mergedEntry at hmem
                split at hmem
                · next hk =>
                    obtain ⟨run, hr, heq⟩ := List.mem_map.mp hmem
                    obtain ⟨rfl, rfl, rfl⟩ : id = i ∧ run.json = stored ∧ json = j := by
                      simpa using heq
                    exact hassert hk run (Option.mem_toList.mp hr)
                · cases hmem
              · simp at hmem
          · refine (h.unread.critical h.wellFormed hc).mono fun i j hj => ?_
            rcases hj with hj | ⟨rfl, rfl, rfl⟩
            · exact hjobs i j hj
            · exact hjobs i j (herror j rfl).2
      · cases hp
  | status json =>
      simp only [Session.perform, publishStatus] at hp
      split at hp
      · next events hc =>
          obtain rfl := Option.some.inj hp
          obtain ⟨f, hf, hr⟩ := h.refines
          exact ⟨h.wellFormed.status hc, ⟨f, hf, hr.status hc⟩, h.agree,
            (h.unread.status hc).mono hjobs⟩
      · cases hp

/-- The actions submit no error. -/
def ErrorFree (actions : List Action) : Prop := ∀ json, Action.enqueue .error json ∉ actions

theorem Delivers.performAll {s s' : Session} {env : Environment} {id : String}
    {actions : List Action} (h : s.Delivers) (hfree : ErrorFree actions)
    (hp : s.performAll env id actions = some s') : s'.Delivers := by
  induction actions generalizing s with
  | nil =>
      obtain rfl := Option.some.inj hp
      exact h
  | cons a actions ih =>
      rw [performAll_cons, Option.bind_eq_some_iff] at hp
      obtain ⟨t, ht, hrest⟩ := hp
      refine ih (h.perform (fun json ha => ?_) ht) (fun json hj => ?_) hrest
      · exact absurd (ha ▸ List.mem_cons_self) (hfree json)
      · exact hfree json (List.mem_cons_of_mem _ hj)

/-- The actions submit at most one error, before anything else touches the mailbox, and it
    agrees with the unread run. -/
inductive Reports (m : EventMailbox) (id : String) (value : Job) : List Action → Prop
  | none {actions : List Action} (h : ErrorFree actions) : Reports m id value actions
  | one {pre post : List Action} {json : String} (hpre : ∀ a ∈ pre, Silent a)
      (hpost : ErrorFree post) (hassert : m.asserted id .error json)
      (hunread : json = recoverableErrorJson id ∨ value.Ended) :
      Reports m id value (pre ++ .enqueue .error json :: post)

theorem Delivers.reports {s s' : Session} {env : Environment} {id : String} {value : Job}
    {actions : List Action} (h : s.Delivers) (hvalue : s.jobs.lookup id = some value)
    (hr : Reports s.events id value actions)
    (hp : s.performAll env id actions = some s') : s'.Delivers := by
  cases hr with
  | none hfree => exact h.performAll hfree hp
  | @one pre post json hpre hpost hassert hunread =>
      induction pre generalizing s with
      | nil =>
          rw [List.nil_append, performAll_cons, Option.bind_eq_some_iff] at hp
          obtain ⟨t, ht, hrest⟩ := hp
          refine (h.perform (fun j hj => ?_) ht).performAll hpost hrest
          obtain rfl : json = j := by simpa using hj
          refine ⟨hassert, hunread.imp_right fun hend v hv => ?_⟩
          exact Option.some.inj (hvalue.symm.trans hv) ▸ hend
      | cons a pre ih =>
          rw [List.cons_append, performAll_cons, Option.bind_eq_some_iff] at hp
          obtain ⟨t, ht, hrest⟩ := hp
          have ha := hpre a List.mem_cons_self
          refine ih (h.perform (fun j hj => absurd hj (ha.1 .error j)) ht)
            ((perform_spec ht).1.symm ▸ hvalue) (fun b hb => hpre b (List.mem_cons_of_mem _ hb)) ?_
            hrest
          rw [(perform_silent ha ht).1]
          exact hassert

/-- An update keeps the mailbox faithful, if it does not take an ended completion up again. -/
theorem Delivers.update {s s' : Session} {env : Environment} {id : String} {value : Job}
    {worked : Job × List Action} (h : s.Delivers) (hvalue : s.jobs.lookup id = some value)
    (hended : value.Ended → worked.1.Ended) (hr : Reports s.events id worked.1 worked.2)
    (hu : s.update env id worked = some s') : s'.Delivers := by
  have hset : (s.setJob id worked.1).Delivers := by
    refine h.same [] rfl (List.append_nil _).symm (by simp) (by simp) fun i json hj => ?_
    refine hj.imp_right fun hall v hv => ?_
    by_cases hi : i = id
    · subst hi
      obtain rfl : worked.1 = v := by simpa [setJob] using hv
      exact hended (hall value hvalue)
    · exact hall v (by rwa [setJob, Finmap.lookup_insert_of_ne _ hi] at hv)
  exact hset.reports (Finmap.lookup_insert _) hr hu

end Session

/-! ## What the steps submit -/

theorem Mailless.errorFree {actions : List Action} (h : Mailless actions) : ErrorFree actions :=
  fun json => h .error json

/-- What the end of a completion submits: nothing but its own failure. -/
theorem CompletionEnd.reports {env : Environment} {id : String} {value : Job} {success : Bool}
    {worked : Job × List Action} {m : EventMailbox} (h : CompletionEnd env id value success worked)
    (hw : value.completionWaiting = false) (alert : Alert)
    (hunread : (∃ failure, completionOutcome env value success = .failed failure) →
      m.unreadError id = none) :
    Reports m id worked.1 (.accepted alert :: worked.2) := by
  cases h with
  | recheck payloads metadata houtcome => exact .none (by simp [ErrorFree])
  | completed payloads metadata houtcome => exact .none (by simp [ErrorFree])
  | failed failure payloads metadata houtcome =>
      have hnone := hunread ⟨failure, houtcome⟩
      have hend : ({ value with
          finalPayloads := payloads
          finalMetadata := metadata
          completionCheckpoint := false
          stopped := true
          checkpoint := {} } : Job).Ended := ⟨rfl, hw, rfl⟩
      have h := @Reports.one m id _ [.accepted alert] [.command (.removeTorrent value.handle false)]
        (completionFailedJson id failure) (by simp [Silent]) (by simp [ErrorFree])
        (fun _ run hr => by simp [hnone] at hr) (Or.inr hend)
      exact h

/-- What the end of a checkpoint submits. -/
theorem FinishEnd.reports {env : Environment} {id : String} {value : Job} {success : Bool}
    {worked : Job × List Action} {m : EventMailbox} (h : FinishEnd env id value success worked)
    (hexclusive : ¬ (value.completionWaiting = true ∧ value.completionCheckpoint = true))
    (alert : Alert)
    (hunread : value.completionCheckpoint = true →
      (∃ failure, completionOutcome env value (success && decide (value.checkpoint.error = .ok)) =
        .failed failure) → m.unreadError id = none) :
    Reports m id worked.1 (.accepted alert :: worked.2) := by
  cases h with
  | completion hcompletion hend =>
      refine hend.reports ?_ alert (hunread hcompletion)
      by_contra hw
      exact hexclusive ⟨by simpa using hw, hcompletion⟩
  | answered hcompletion hactive => exact .none (by simp [ErrorFree])
  | drained hcompletion hactive =>
      refine .none fun json hj => ?_
      rcases List.mem_cons.mp hj with hj | hj
      · cases hj
      · exact startWaitingCompletion_mailless _ .error json hj

/-- The error of this step is kept apart from the unread ones: no error alert is reported while
    a code-16 event is unread, and no completion fails while any error is. -/
def Job.KeepsCodesApart (env : Environment) (id : String) (value : Job) (alert : Alert)
    (m : EventMailbox) : Prop :=
  ∀ run ∈ m.unreadError id,
    (alert.kind.isError = true → value.checkpoint.barrier.pending = false →
      run.json = recoverableErrorJson id) ∧
    value.failsCompletion env alert = false

instance (env : Environment) (id : String) (value : Job) (alert : Alert) (m : EventMailbox) :
    Decidable (value.KeepsCodesApart env id alert m) :=
  inferInstanceAs (Decidable (∀ run ∈ m.unreadError id, _ ∧ _))

theorem AlertEnd.reports {env : Environment} {id : String} {value : Job} {alert : Alert}
    {worked : Job × List Action} {m : EventMailbox} (h : AlertEnd env id value alert worked)
    (hok : value.SlotOk) (hapart : value.KeepsCodesApart env id alert m) :
    Reports m id worked.1 worked.2 := by
  have hnone : value.failsCompletion env alert = true → m.unreadError id = none := by
    intro hfails
    by_contra hne
    obtain ⟨run, hrun⟩ := Option.ne_none_iff_exists'.mp hne
    rw [(hapart run hrun).2] at hfails
    cases hfails
  cases h with
  | metadata hkind hselects htuning =>
      refine .none fun json hj => ?_
      rcases List.mem_append.mp hj with hj | hj
      · exact htuning.mailless .error json hj
      · simp at hj
  | rejected hkind hselects htuning =>
      refine .none fun json hj => ?_
      rcases List.mem_append.mp hj with hj | hj
      · exact htuning.mailless .error json hj
      · simp at hj
  | completing hkind hcompletes hworked =>
      subst hworked
      refine .none fun json hj => ?_
      simp only [List.mem_cons, reduceCtorEq, false_or] at hj
      exact startWaitingCompletion_mailless _ .error json hj
  | flushed request hkind hphase => exact .none (by simp [ErrorFree])
  | @saved request data hkind hphase fin hend =>
      refine hend.reports hok.exclusive alert fun hc hfailed => hnone ?_
      rw [completionOutcome_withReply, Bool.true_and] at hfailed
      exact (Job.failsCompletion_saved hkind hphase).mpr ⟨hc, hfailed⟩
  | @saveFailed request hkind hphase fin hend =>
      exact hend.reports hok.exclusive alert fun hc _ =>
        hnone ((Job.failsCompletion_saveFailed hkind hphase).mpr hc)
  | errorNoted hkind hphase => exact .none (by simp [ErrorFree])
  | errorReported hkind hphase =>
      refine @Reports.one m id _ [] [] _ (by simp) (by simp [ErrorFree]) (fun _ run hr => ?_)
        (Or.inl rfl)
      exact (hapart run hr).1 hkind hphase
  | status hkind json => exact .none (by simp [ErrorFree])
  | ignored herror hflushed hsaved hfailed => exact .none (by simp [ErrorFree])

end LibtorrentKit
