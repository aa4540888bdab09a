/-
  What the trace holds of the completion of a job.

  A completion is triggered by a finished alert, is fenced by one or two rounds and ends in one
  verdict: a `completed` or a code-16 event. `Job.CompletionOk` says where in the trace the
  trigger and the present fence are, and `Job.Counted` how many fences and verdicts there have
  been since the torrent was added. Neither needs libtorrent to be honest.
-/
import LibtorrentKit.Session.Requests
import LibtorrentKit.Session.Callers
import LibtorrentKit.Session.Verdicts

namespace LibtorrentKit

open History Session

/-! ## Trigger and fence -/

def IsCompleting (id : String) (e : Entry) : Prop := ∃ h desired, e = .completing id h desired

/-- A finished alert has triggered the completion of `id` at `c`, when the files `desired` were
    selected. -/
structure Triggered (log : List Entry) (id : String) (h : Handle) (desired : List Int)
    (c : Nat) : Prop where
  finished : ∃ t, t < c ∧ At log t (.alert (some id) ⟨h, .torrentFinished⟩)
  started : At log c (.completing id h desired)
  latest : NoneAfter (IsCompleting id) log c

/-- The completion triggered at `c` is fenced by the round that began at `b`, the last one. -/
structure FencedBy (log : List Entry) (id : String) (h : Handle) (c b : Nat) : Prop where
  after : c < b
  began : At log b (.began id h true true)
  latest : NoneAfter (IsBegan id) log b

/-- Where the trigger and the fence of a completion are that waits or is under way. -/
structure Job.CompletionOk (log : List Entry) (id : String) (value : Job) : Prop where
  triggered : World.completing value → ∃ c, Triggered log id value.handle value.desiredFiles c
  fenced : value.completionCheckpoint = true →
    ∃ c b, Triggered log id value.handle value.desiredFiles c ∧ FencedBy log id value.handle c b

theorem Triggered.append {log new : List Entry} {id : String} {h : Handle} {desired : List Int}
    {c : Nat} (ht : Triggered log id h desired c) (hnew : ∀ e ∈ new, ¬ IsCompleting id e) :
    Triggered (log ++ new) id h desired c := by
  obtain ⟨t, htc, hat⟩ := ht.finished
  exact ⟨⟨t, htc, hat.append new⟩, ht.started.append new, ht.latest.append hnew⟩

theorem FencedBy.append {log new : List Entry} {id : String} {h : Handle} {c b : Nat}
    (hf : FencedBy log id h c b) (hnew : ∀ e ∈ new, ¬ IsBegan id e) :
    FencedBy (log ++ new) id h c b :=
  ⟨hf.after, hf.began.append new, hf.latest.append hnew⟩

/-- A completion is fenced by the round that begins after its trigger. -/
theorem Triggered.fence {log : List Entry} {id : String} {h : Handle} {desired : List Int} {c : Nat}
    (ht : Triggered log id h desired c) (command : Command) :
    Triggered (log ++ [.began id h true true, .command command]) id h desired c ∧
      FencedBy (log ++ [.began id h true true, .command command]) id h c log.length := by
  refine ⟨ht.append fun e he => ?_, ht.started.lt, by simp [At], fun u e hu he => ?_⟩
  · simp only [List.mem_cons, List.not_mem_nil, or_false] at he
    rcases he with rfl | rfl <;> rintro ⟨_, _, heq⟩ <;> cases heq
  · rcases at_append.mp he with he | ⟨hle, he⟩
    · have := he.lt
      omega
    · have hlt := he.lt
      simp only [List.length_cons, List.length_nil] at hlt
      obtain rfl : u = log.length + 1 := by omega
      obtain rfl : e = .command command := by simpa [At] using he.symm
      rintro ⟨_, _, _, heq⟩
      cases heq

/-! ## Counting -/

/-- The event that a completion ends in. -/
def Entry.isVerdict (id : String) : Entry → Bool
  | .mail (.submit i .completed _) => decide (i = id)
  | .mail (.submit i .error json) =>
      decide (i = id) && [CompletionFailure.checkpoint, .payloads, .metadata].any fun failure =>
        decide (json = completionFailedJson id failure)
  | _ => false

/-- A round that a completion begins. -/
def Entry.isFence (id : String) : Entry → Bool
  | .began i _ _ completion => decide (i = id) && completion
  | _ => false

/-- The trace since `id` was last added. -/
def life (id : String) (log : List Entry) : List Entry :=
  since (fun e => decide (e = .mail (.begin id))) log

def verdicts (id : String) (log : List Entry) : Nat := (life id log).countP (Entry.isVerdict id)

def fences (id : String) (log : List Entry) : Nat := (life id log).countP (Entry.isFence id)

/-- How many verdicts and fences a job has seen, by how far its completion has come. -/
structure Job.Counted (value : Job) (verdicts fences : Nat) : Prop where
  underWay : value.completionCheckpoint = true →
    verdicts = 0 ∧ fences = if value.completionRechecked then 2 else 1
  before : value.completionWaiting = true ∨
    (value.stopped = false ∧ value.completionCheckpoint = false) →
    verdicts = 0 ∧ fences = 0 ∧ value.completionRechecked = false
  bound : verdicts ≤ 1 ∧ fences ≤ 2

/-- What the actions of `id` add to a count. -/
def tally (p : Entry → Bool) (id : String) (actions : List Action) : Nat :=
  (actions.filterMap (actionEntry id)).countP p

theorem emits_countP {p : Entry → Bool} (hp : ∀ i stored json, p (.merged i stored json) = false)
    {id : String} {actions : List Action} {new : List Entry} (h : Emits id actions new) :
    new.countP p = tally p id actions := by
  induction actions generalizing new with
  | nil =>
      obtain rfl : new = [] := h
      rfl
  | cons a actions ih =>
      obtain ⟨notes, rest, rfl, hnotes, _, hrest⟩ := h
      have hzero : notes.countP p = 0 := by
        rw [List.countP_eq_zero]
        intro e he
        obtain ⟨stored, json, rfl⟩ := hnotes e he
        simp [hp]
      have hone : tally p id (a :: actions) =
          ((actionEntry id a).toList).countP p + tally p id actions := by
        unfold tally
        cases hae : actionEntry id a <;>
          simp [hae, List.countP_cons, Nat.add_comm]
      rw [List.countP_append, List.countP_append, hzero, ih hrest, hone, Nat.zero_add]

theorem Tuning.tally {p : Entry → Bool} (hp : ∀ c, p (.command c) = false) {id : String}
    {actions : List Action} (h : Tuning actions) : tally p id actions = 0 := by
  unfold LibtorrentKit.tally
  rw [List.countP_eq_zero]
  intro e he
  obtain ⟨a, ha, hae⟩ := List.mem_filterMap.mp he
  obtain ⟨c, rfl, _⟩ := h a ha
  obtain rfl : Entry.command c = e := by simpa [actionEntry] using hae
  simp [hp]

theorem tally_append (p : Entry → Bool) (id : String) (xs ys : List Action) :
    tally p id (xs ++ ys) = tally p id xs + tally p id ys := by
  simp [tally]

/-- The verdicts and fences that the actions of `id` add. -/
def Job.CountedAfter (id : String) (worked : Job × List Action) (verdicts fences : Nat) : Prop :=
  worked.1.Counted (verdicts + tally (Entry.isVerdict id) id worked.2)
    (fences + tally (Entry.isFence id) id worked.2)

section Counting

variable {id : String} {value : Job} {v f : Nat}

theorem Job.Counted.silent (h : value.Counted v f) {actions : List Action}
    (hv : tally (Entry.isVerdict id) id actions = 0)
    (hf : tally (Entry.isFence id) id actions = 0) : Job.CountedAfter id (value, actions) v f := by
  unfold Job.CountedAfter
  rw [hv, hf]
  exact h

theorem Job.Counted.tuning (h : value.Counted v f) {actions : List Action}
    (ht : Tuning actions) : Job.CountedAfter id (value, actions) v f :=
  h.silent (ht.tally fun _ => rfl) (ht.tally fun _ => rfl)

/-- The counts look at nothing of the slot. -/
theorem Job.Counted.slot (h : value.Counted v f) (slot : CheckpointState) :
    ({ value with checkpoint := slot } : Job).Counted v f :=
  ⟨h.underWay, h.before, h.bound⟩

theorem startWaitingCompletion_counted (h : value.Counted v f) :
    Job.CountedAfter id (startWaitingCompletion value) v f := by
  rcases startWaitingCompletion_cases value with ⟨heq, _⟩ | ⟨hw, _, _, heq⟩ <;> rw [heq]
  · exact h.silent rfl rfl
  · obtain ⟨rfl, rfl, hr⟩ := h.before (Or.inl hw)
    have hv : tally (Entry.isVerdict id) id
        [.began value.handle true true, .command (.flushCache value.handle)] = 0 := rfl
    have hf : tally (Entry.isFence id) id
        [.began value.handle true true, .command (.flushCache value.handle)] = 1 := by
      simp [tally, actionEntry, Entry.isFence]
    unfold Job.CountedAfter
    rw [hv, hf]
    constructor <;> simp [Job.completionStarted, hr]

theorem Job.Selects.counted {value' : Job} (hs : value.Selects value') (h : value.Counted v f) :
    value'.Counted v f := by
  obtain ⟨d, fs, p, i, r, l, rfl, _⟩ := hs
  exact ⟨h.underWay, h.before, h.bound⟩

/-- A call begins a fence only of a completion that waits, and gives no verdict. -/
theorem Session.Work.counted {slot closing : Prop} {env : Environment}
    {worked : Job × List Action} (hw : Work slot closing env value worked)
    (h : value.Counted v f) : Job.CountedAfter id worked v f := by
  cases hw with
  | select hselects htuning => exact (hselects.counted h).tuning htuning
  | reject =>
      have hstop : ({ value with stopped := true } : Job).Counted v f :=
        ⟨h.underWay, fun hb => h.before (hb.imp_right fun hs => by simp at hs), h.bound⟩
      exact hstop.silent rfl rfl
  | begin hslot flush hstopped hactive hidle hcompletion =>
      rw [beginCheckpoint_eq]
      refine (h.slot _).silent rfl ?_
      simp [tally, actionEntry, Entry.isFence, hcompletion]
  | abandon hslot hactive =>
      unfold abandonCheckpoint
      split
      · exact startWaitingCompletion_counted (h.slot {})
      · exact (h.slot _).silent rfl rfl
  | finish hslot hactive hdone =>
      exact startWaitingCompletion_counted (h.slot {})

theorem completionOutcome_recheck {env : Environment} {success : Bool}
    (h : completionOutcome env value success = .recheck) : value.completionRechecked = false := by
  unfold completionOutcome at h
  split at h
  · cases h
  · split at h
    · split at h
      · next hr => simpa using hr
      · cases h
    · split at h <;> cases h

theorem FinishEnd.counted {env : Environment} {success : Bool} {worked : Job × List Action}
    (hend : FinishEnd env id value success worked)
    (hexclusive : ¬ (value.completionWaiting = true ∧ value.completionCheckpoint = true))
    (h : value.Counted v f) : Job.CountedAfter id worked v f := by
  cases hend with
  | completion hcompletion hend =>
      have hw : value.completionWaiting = false := by
        by_contra hw
        exact hexclusive ⟨by simpa using hw, hcompletion⟩
      obtain ⟨rfl, hf⟩ := h.underWay hcompletion
      have hbound := h.bound.2
      cases hend with
      | recheck payloads metadata houtcome =>
          rw [completionOutcome_recheck houtcome] at hf
          have htally : tally (Entry.isFence id) id [.began value.handle true
              value.completionCheckpoint, .command (.flushCache value.handle)] = 1 := by
            simp [tally, actionEntry, Entry.isFence, hcompletion]
          have hzero : tally (Entry.isVerdict id) id [.began value.handle true
              value.completionCheckpoint, .command (.flushCache value.handle)] = 0 := rfl
          unfold Job.CountedAfter
          rw [htally, hzero, hf]
          constructor <;> simp [hw, hcompletion]
      | completed payloads metadata houtcome =>
          have htally : tally (Entry.isVerdict id) id
              [.enqueue .completed (completedJson id (env.status value.handle)),
                .command (.removeTorrent value.handle false),
                .enqueue .stopped (stoppedAfterCompletionJson id)] = 1 := by
            simp [tally, actionEntry, Entry.isVerdict]
          unfold Job.CountedAfter
          rw [htally]
          exact ⟨by simp, by simp [hw], Nat.le_refl 1, hbound⟩
      | failed failure payloads metadata houtcome =>
          have htally : tally (Entry.isVerdict id) id
              [.enqueue .error (completionFailedJson id failure),
                .command (.removeTorrent value.handle false)] = 1 := by
            cases failure <;> simp [tally, actionEntry, Entry.isVerdict]
          unfold Job.CountedAfter
          rw [htally]
          exact ⟨by simp, by simp [hw], Nat.le_refl 1, hbound⟩
  | answered hcompletion hactive =>
      exact (h.slot _).silent rfl rfl
  | drained hcompletion hactive =>
      exact startWaitingCompletion_counted (h.slot {})

end Counting

end LibtorrentKit
