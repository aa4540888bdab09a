/-
  The invariant rule for one job.

  A property of a job and the trace that is kept by what the job does itself, and by entries
  that do not concern it, holds of every job after every run (`JobInvariant.of_run`). The job
  may be absent: the property then speaks of the trace alone.
-/
import LibtorrentKit.Session.Callers

namespace LibtorrentKit

open Session

/-- The entry is about the job of `id`. A command is about a torrent, not about a job. -/
def Entry.Concerns (id : String) : Entry → Prop
  | .began i _ _ _ => i = id
  | .alert o _ => o = some id
  | .accepted i _ => i = id
  | .completing i _ _ => i = id
  | .mail (.begin i) => i = id
  | .mail (.submit i _ _) => i = id
  | .merged i _ _ => i = id
  | _ => False

theorem emits_concerns {id i : String} {actions : List Action} {new : List Entry}
    (h : Emits id actions new) (hi : i ≠ id) : ∀ e ∈ new, ¬ e.Concerns i := by
  intro e he
  rcases emits_mem h he with ⟨a, _, hae⟩ | ⟨_, _, rfl⟩
  · cases a <;> simp only [actionEntry, Option.some.injEq, reduceCtorEq] at hae <;> subst hae <;>
      simp [Entry.Concerns, Ne.symm hi]
  · exact Ne.symm hi

/-- What makes a property of a job and the trace an invariant. -/
structure JobInvariant (P : List Entry → String → Option Job → Prop) : Prop where
  init : ∀ id, P [] id none
  frame : ∀ {log new : List Entry} {id : String} {o : Option Job}, P log id o →
    (∀ e ∈ new, ¬ e.Concerns id) → P (log ++ new) id o
  work : ∀ {slot closing : Prop} {env : Environment} {log new : List Entry} {id : String}
    {value : Job} {worked : Job × List Action}, value.SlotOk →
    Work slot closing env value worked → P log id (some value) → Emits id worked.2 new →
    P (log ++ new) id (some worked.1)
  alert : ∀ {env : Environment} {log new : List Entry} {id : String} {value : Job} {a : Alert}
    {worked : Job × List Action}, value.SlotOk → value.handle = a.handle →
    AlertEnd env id value a worked → P log id (some value) → Emits id worked.2 new →
    P (log ++ .alert (some id) a :: new) id (some worked.1)
  insert : ∀ {env : Environment} {log rest : List Entry} {r : AddRequest}
    {params : AddTorrentParams} {desired : List Int} {handle : Handle},
    P log r.identifier none →
    (∀ e ∈ rest, e = .mail (.submit r.identifier .metadata (metadataReadyJson r.identifier))) →
    P (log ++ .command (.addTorrent params handle) :: .mail (.begin r.identifier) :: rest)
      r.identifier (some (newJob env r params desired handle))
  remove : ∀ {log : List Entry} {id : String} {value : Job}, value.checkpoint.active = false →
    P log id (some value) → P log id none

namespace JobInvariant

variable {P : List Entry → String → Option Job → Prop}

/-- One job is set, and the entries in between concern it alone. -/
theorem set (hP : JobInvariant P) {s s' : Session} {id : String} {value' : Job}
    {new : List Entry} (h : ∀ i, P s.trace i (s.jobs.lookup i))
    (hjobs : s'.jobs = s.jobs.insert id value') (htrace : s'.trace = s.trace ++ new)
    (hself : P (s.trace ++ new) id (some value'))
    (hothers : ∀ i, i ≠ id → ∀ e ∈ new, ¬ e.Concerns i) :
    ∀ i, P s'.trace i (s'.jobs.lookup i) := by
  intro i
  rw [htrace, hjobs]
  by_cases hi : i = id
  · subst hi
    rw [Finmap.lookup_insert]
    exact hself
  · rw [Finmap.lookup_insert_of_ne _ hi]
    exact hP.frame (h i) (hothers i hi)

/-- Nothing happens to the jobs. -/
theorem outside (hP : JobInvariant P) {s s' : Session} {new : List Entry}
    (h : ∀ i, P s.trace i (s.jobs.lookup i)) (hjobs : s'.jobs = s.jobs)
    (htrace : s'.trace = s.trace ++ new) (hnew : ∀ e ∈ new, ∀ i, ¬ e.Concerns i) :
    ∀ i, P s'.trace i (s'.jobs.lookup i) := by
  intro i
  rw [htrace, hjobs]
  exact hP.frame (h i) fun e he => hnew e he i

theorem micro (hP : JobInvariant P) {s s' : Session} (hs : s.Slots) (hm : World.Micro s s')
    (h : ∀ i, P s.trace i (s.jobs.lookup i)) : ∀ i, P s'.trace i (s'.jobs.lookup i) := by
  have hsame : ∀ {t : Session}, t.jobs = s.jobs → t.trace = s.trace →
      ∀ i, P t.trace i (t.jobs.lookup i) := fun hj ht =>
    hP.outside h hj (by rw [ht, List.append_nil]) fun e he => by cases he
  have hrecord : ∀ e : Entry, (∀ i, ¬ e.Concerns i) →
      ∀ i, P (s.record e).trace i ((s.record e).jobs.lookup i) := fun e he =>
    hP.outside h rfl rfl fun x hx => List.mem_singleton.mp hx ▸ he
  cases hm with
  | called c api => exact hrecord _ fun i => id
  | returned c api response => exact hrecord _ fun i => id
  | destroy => exact hsame rfl rfl
  | alert env a hrunning hh =>
      rcases handleAlert_cases hh with rfl | ⟨id, value, hvalue, hhandle, _, hupdate⟩
      · exact hrecord _ fun i => by simp [Entry.Concerns]
      · obtain ⟨new, hu⟩ := update_spec hupdate
        have htrace : s'.trace = s.trace ++ .alert (some id) a :: new := by
          rw [hu.trace]
          simp
        refine hP.set h hu.jobs htrace ?_ fun i hi e he => ?_
        · exact hP.alert (hs id value hvalue) hhandle (onAlert_end env id value a)
            (hvalue ▸ h id) hu.emits
        · rcases List.mem_cons.mp he with rfl | he
          · simpa [Entry.Concerns] using Ne.symm hi
          · exact emits_concerns hu.emits hi e he
  | life hl =>
      cases hl with
      | insert env r params desired handle hrunning hfree hcan hadd hinsert =>
          obtain ⟨hjobs, _, _, _, rest, htrace, hrest⟩ := insertJob_spec hinsert
          refine hP.set h hjobs htrace ?_ fun i hi e he => ?_
          · have hnone := h r.identifier
            rw [Finmap.lookup_eq_none.mpr hfree] at hnone
            exact hP.insert hnone hrest
          · rcases List.mem_cons.mp he with rfl | he
            · exact fun hc => hc
            · rcases List.mem_cons.mp he with rfl | he
              · exact Ne.symm hi
              · rw [hrest e he]
                exact Ne.symm hi
      | remove id value deleteFiles hvalue hactive =>
          have hgone : ∀ i, P s.trace i ((s.jobs.erase id).lookup i) := by
            intro i
            by_cases hi : i = id
            · subst hi
              rw [Finmap.lookup_erase]
              exact hP.remove hactive (hvalue ▸ h i)
            · rw [Finmap.lookup_erase_ne hi]
              exact h i
          intro i
          rw [remove_jobs hvalue hactive]
          simp only [ltkitSessionRemove, hvalue, hactive, Bool.false_eq_true, if_false]
          split
          · exact hgone i
          · have hframe : P (s.trace ++ [.command (.removeTorrent value.handle deleteFiles)]) i
                ((s.jobs.erase id).lookup i) :=
              hP.frame (hgone i) fun e he => List.mem_singleton.mp he ▸ fun hc => hc
            exact hframe
  | move hmove =>
      cases hmove with
      | error e => exact hsame rfl rfl
      | wake => exact hsame rfl rfl
      | read env json hfront hpop =>
          unfold popEvent at hpop
          split at hpop
          · obtain rfl := Option.some.inj hpop
            refine hP.outside h rfl rfl fun e he i => ?_
            obtain ⟨x, _, rfl⟩ := Option.map_eq_some_iff.mp (Option.mem_toList.mp he)
            exact fun hc => hc
          · cases hpop
      | work env id hvalue hwork hupdate =>
          obtain ⟨new, hu⟩ := update_spec hupdate
          refine hP.set h hu.jobs hu.trace ?_ fun i hi e he => emits_concerns hu.emits hi e he
          exact hP.work (hs _ _ hvalue) hwork (hvalue ▸ h _) hu.emits

/-- The invariant rule for one job. -/
theorem of_run (hP : JobInvariant P) {ls : List Step} {w : World}
    (hrun : Lts.exec World.step {} ls = some w) (id : String) :
    P w.session.trace id (w.session.jobs.lookup id) := by
  have hinit : ∀ i, P ({} : Session).trace i (({} : Session).jobs.lookup i) := by
    intro i
    rw [Finmap.lookup_empty]
    exact hP.init i
  exact World.run_invariant (fun _ => True) (fun s => ∀ i, P s.trace i (s.jobs.lookup i))
    (fun _ h => h) hinit (fun hi hs _ hm => hP.micro hs hm hi) hrun trivial id

end JobInvariant

end LibtorrentKit
