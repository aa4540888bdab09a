/-
  The round that waits for a reply, as the trace tells it.

  `watch id` reads off the trace whether the last round of a torrent waits for a reply, and
  whether an error alert has come while it did. A round that waits in the slot also waits in
  the trace (`watchOk_invariant`); the converse fails once a shutdown has freed a slot whose
  request is out.
-/
import LibtorrentKit.Session.Results

namespace LibtorrentKit

open History Session

/-- A reply that ends a round. -/
def AlertKind.endsRound : AlertKind → Bool
  | .saveResumeData _ _ => true
  | .saveResumeDataFailed _ => true
  | _ => false

/-- What the trace says of the last round of a torrent: whether it waits for a reply, and
    whether an error alert has come in it. -/
structure Watch where
  pending : Bool := false
  noted : Bool := false
  deriving DecidableEq, Repr

def Watch.next (id : String) (watch : Watch) : Entry → Watch
  | .began i _ _ _ => if i = id then { pending := true } else watch
  | .accepted i alert =>
      if i = id ∧ alert.kind.endsRound = true then { watch with pending := false } else watch
  | .alert o alert =>
      if o = some id ∧ alert.kind.isError = true ∧ watch.pending = true then
        { watch with noted := true }
      else watch
  | .mail (.begin i) => if i = id then {} else watch
  | _ => watch

def watch (id : String) (log : List Entry) : Watch := log.foldl (Watch.next id) {}

theorem watch_append (id : String) (log new : List Entry) :
    watch id (log ++ new) = new.foldl (Watch.next id) (watch id log) := by
  unfold watch
  rw [List.foldl_append]

/-- An entry that changes nothing for the round of `id`, whatever the round is. -/
def Idle (id : String) (e : Entry) : Prop := ∀ watch, Watch.next id watch e = watch

theorem foldl_idle {id : String} {new : List Entry} (h : ∀ e ∈ new, Idle id e) (s : Watch) :
    new.foldl (Watch.next id) s = s := by
  induction new generalizing s with
  | nil => rfl
  | cons e new ih =>
      rw [List.foldl_cons, h e List.mem_cons_self s]
      exact ih (fun x hx => h x (List.mem_cons_of_mem _ hx)) s

theorem watch_idle {id : String} {new : List Entry} (h : ∀ e ∈ new, Idle id e)
    (log : List Entry) : watch id (log ++ new) = watch id log := by
  rw [watch_append, foldl_idle h]

theorem idle_of_outside {id : String} {e : Entry} (h : ¬ e.Concerns id) : Idle id e := by
  intro s
  cases e with
  | began i handle flush completion => exact if_neg h
  | accepted i alert => exact if_neg fun hc => h hc.1
  | alert o alert => exact if_neg fun hc => h hc.1
  | mail event =>
      cases event with
      | «begin» i => exact if_neg h
      | _ => rfl
  | _ => rfl

/-- The action neither begins a round nor accepts a reply. -/
def Action.isIdle : Action → Bool
  | .began _ _ _ => false
  | .accepted _ => false
  | _ => true

theorem Tuning.idle {actions : List Action} (h : Tuning actions) :
    ∀ a ∈ actions, a.isIdle = true := by
  intro a ha
  obtain ⟨c, rfl, _⟩ := h a ha
  rfl

theorem emits_idle {id : String} {actions : List Action} {new : List Entry}
    (hemits : Emits id actions new) (h : ∀ a ∈ actions, a.isIdle = true) (i : String) :
    ∀ e ∈ new, Idle i e := by
  intro e he s
  rcases emits_mem hemits he with ⟨a, ha, hae⟩ | ⟨_, _, rfl⟩
  · have hidle := h a ha
    cases a <;> simp only [actionEntry, Option.some.injEq, reduceCtorEq] at hae <;> subst hae <;>
      first | rfl | cases hidle
  · rfl

/-- If a round waits in the slot, it also waits in the trace. -/
def Job.Watched (value : Job) (log : List Entry) (id : String) : Prop :=
  value.checkpoint.barrier.pending = true → (watch id log).pending = true

section Watched

variable {value : Job} {log new : List Entry} {id : String}

theorem Job.Watched.idle (h : value.Watched log id) (hnew : ∀ e ∈ new, Idle id e) :
    value.Watched (log ++ new) id := by
  intro hp
  rw [watch_idle hnew]
  exact h hp

theorem Job.Watched.slot (h : value.Watched log id) {value' : Job}
    (hbarrier : value'.checkpoint.barrier = value.checkpoint.barrier) : value'.Watched log id := by
  intro hp
  exact h (hbarrier ▸ hp)

/-- A round that has just begun waits. -/
theorem watch_began {handle : Handle} {flush completion : Bool} {c : Command}
    (hemits : Emits id [.began handle flush completion, .command c] new) :
    (watch id (log ++ new)).pending = true := by
  rw [emits_round hemits, watch_append]
  simp [Watch.next]

theorem startWaitingCompletion_watched (h : value.Watched log id)
    (hemits : Emits id (startWaitingCompletion value).2 new) :
    (startWaitingCompletion value).1.Watched (log ++ new) id := by
  rcases startWaitingCompletion_cases value with ⟨heq, _⟩ | ⟨_, _, _, heq⟩ <;> rw [heq] at hemits ⊢
  · obtain rfl : new = [] := hemits
    rw [List.append_nil]
    exact h
  · exact fun _ => watch_began hemits

theorem watched_of_free (hp : value.checkpoint.barrier.pending = false) : value.Watched log id := by
  intro h
  rw [hp] at h
  cases h

theorem Session.Work.watched {slot closing : Prop} {env : Environment} {worked : Job × List Action}
    (hwork : Work slot closing env value worked) (h : value.Watched log id)
    (hemits : Emits id worked.2 new) : worked.1.Watched (log ++ new) id := by
  cases hwork with
  | select hselects htuning =>
      exact (h.slot (by rw [hselects.sameSlot.2.2])).idle (emits_idle hemits htuning.idle id)
  | reject => exact (h.slot rfl).idle (emits_idle hemits (by simp [Action.isIdle]) id)
  | begin hslot flush hstopped hactive hidle hcompletion =>
      rw [beginCheckpoint_eq] at hemits
      exact fun _ => watch_began hemits
  | abandon hslot hactive =>
      unfold abandonCheckpoint at hemits ⊢
      split at hemits
      · next hdone =>
          rw [if_pos hdone]
          exact startWaitingCompletion_watched (watched_of_free rfl) hemits
      · next hdone =>
          rw [if_neg hdone]
          exact (h.slot rfl).idle (emits_idle hemits (by simp) id)
  | finish hslot hactive hdone =>
      exact startWaitingCompletion_watched (watched_of_free rfl) hemits

theorem FinishEnd.watched {env : Environment} {success : Bool} {worked : Job × List Action}
    (h : FinishEnd env id value success worked) (hfree : value.checkpoint.barrier.pending = false)
    (hemits : Emits id worked.2 new) : worked.1.Watched (log ++ new) id := by
  cases h with
  | completion hcompletion hend =>
      cases hend with
      | recheck payloads metadata houtcome => exact fun _ => watch_began hemits
      | completed payloads metadata houtcome => exact watched_of_free rfl
      | failed failure payloads metadata houtcome => exact watched_of_free rfl
  | answered hcompletion hactive => exact watched_of_free hfree
  | drained hcompletion hactive => exact startWaitingCompletion_watched (watched_of_free rfl) hemits

theorem AlertEnd.watched {env : Environment} {alert : Alert} {worked : Job × List Action}
    (hend : AlertEnd env id value alert worked) (h : value.Watched log id)
    (hemits : Emits id worked.2 new) :
    worked.1.Watched (log ++ .alert (some id) alert :: new) id := by
  have halert : value.Watched (log ++ [.alert (some id) alert]) id := by
    intro hp
    have hpending := h hp
    rw [watch_append]
    simp only [List.foldl_cons, List.foldl_nil, Watch.next]
    split <;> exact hpending
  rw [List.append_cons]
  cases hend with
  | metadata hkind hselects htuning =>
      refine (halert.slot (by rw [hselects.sameSlot.2.2])).idle (emits_idle hemits ?_ id)
      intro a ha
      rcases List.mem_append.mp ha with ha | ha
      · exact htuning.idle a ha
      · obtain rfl := List.mem_singleton.mp ha
        rfl
  | @rejected hkind value' actions hselects htuning =>
      have hslot : ({ value' with stopped := true } : Job).checkpoint.barrier =
          value.checkpoint.barrier := by rw [← hselects.sameSlot.2.2]
      refine (halert.slot hslot).idle (emits_idle hemits ?_ id)
      intro a ha
      rcases List.mem_append.mp ha with ha | ha
      · exact htuning.idle a ha
      · simp only [List.mem_cons, List.not_mem_nil, or_false] at ha
        rcases ha with rfl | rfl | rfl <;> rfl
  | completing hkind hcompletes hworked =>
      subst hworked
      obtain ⟨_, rfl, hpause⟩ := emits_cons (by simp [Exact]) rfl hemits
      obtain ⟨rest, rfl, hstart⟩ := emits_cons (by simp [Exact]) rfl hpause
      have hpaused : value.Watched ((log ++ [.alert (some id) alert]) ++
          [.command (.pause value.handle), .completing id value.handle value.desiredFiles]) id :=
        halert.idle fun e he => by
          simp only [List.mem_cons, List.not_mem_nil, or_false] at he
          rcases he with rfl | rfl <;> exact fun _ => rfl
      have hwaiting : ({ value with completionWaiting := true } : Job).Watched
          ((log ++ [.alert (some id) alert]) ++ [.command (.pause value.handle),
            .completing id value.handle value.desiredFiles]) id := hpaused.slot rfl
      simpa using startWaitingCompletion_watched hwaiting hstart
  | flushed request hkind hphase =>
      obtain ⟨rest, rfl, hrest⟩ := emits_cons (by simp [Exact]) rfl hemits
      have haccepted : Idle id (.accepted id alert) := fun s =>
        if_neg fun hc => by simp [hkind, AlertKind.endsRound] at hc
      intro _
      rw [watch_idle fun e he => ?_]
      · exact halert (by simp [DiskCheckpoint.pending, hphase])
      · rcases List.mem_cons.mp he with rfl | he
        · exact haccepted
        · exact emits_idle hrest (by simp [Action.isIdle]) id e he
  | @saved request data hkind hphase fin hend =>
      obtain ⟨rest, rfl, hrest⟩ := emits_cons (by simp [Exact]) rfl hemits
      rw [List.append_cons]
      exact hend.watched rfl hrest
  | @saveFailed request hkind hphase fin hend =>
      obtain ⟨rest, rfl, hrest⟩ := emits_cons (by simp [Exact]) rfl hemits
      rw [List.append_cons]
      exact hend.watched rfl hrest
  | errorNoted hkind hphase =>
      exact (halert.slot rfl).idle (emits_idle hemits (by simp) id)
  | errorReported hkind hphase =>
      exact halert.idle (emits_idle hemits (by simp [Action.isIdle]) id)
  | status hkind json => exact halert.idle (emits_idle hemits (by simp [Action.isIdle]) id)
  | ignored herror hflushed hsaved hfailed =>
      exact halert.idle (emits_idle hemits (by simp) id)

end Watched

/-- A round that waits in the slot also waits in the trace. -/
def WatchOk (log : List Entry) (id : String) (o : Option Job) : Prop :=
  ∀ value, o = some value → value.Watched log id

theorem watchOk_invariant : JobInvariant WatchOk where
  init := fun id value hv => by cases hv
  frame := fun h hnew value hv => (h value hv).idle fun e he => idle_of_outside (hnew e he)
  work := by
    intro slot closing env log new id value worked _ hwork h hemits v hv
    obtain rfl := Option.some.inj hv
    exact hwork.watched (h value rfl) hemits
  alert := by
    intro env log new id value a worked _ _ hend h hemits v hv
    obtain rfl := Option.some.inj hv
    exact hend.watched (h value rfl) hemits
  insert := by
    intro env log rest r params desired handle _ _ v hv
    obtain rfl := Option.some.inj hv
    exact watched_of_free rfl
  remove := fun _ _ value hv => by cases hv

end LibtorrentKit
