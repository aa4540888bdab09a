/-
  A family of FIFO queues, one for each key, with one-shot submissions.

  `Op.begin k` starts the life of key `k` with an empty queue, `Op.submit k t a` offers
  the item `a` under the tag `t`, and `Op.take k a` hands out the item `a` from the head
  of `k`'s queue. A tag may be one-shot: after its first submission in a life, later ones
  are dropped. `step` accepts an operation only when it is legal, so a log that runs
  (`Lts.exec`) is a log of legal operations.

  Proved: `taken_append_queue`. In every legal log, what has been taken from `k` since
  its life began, followed by what is still queued, is what was submitted to `k` in this
  life, in that order, without the repeats of one-shot tags.
-/
import LibtorrentKit.Lib.Run
import Mathlib.Logic.Function.Basic

namespace KeyedFifo

/-- What can happen to the queues: `κ` keys, `τ` tags, `α` items. -/
inductive Op (κ τ α : Type*) where
  | begin (k : κ)
  | submit (k : κ) (t : τ) (a : α)
  | take (k : κ) (a : α)
  deriving DecidableEq, Repr

/-- The queues, and the tags each key has seen in its present life. -/
structure State (κ τ α : Type*) where
  seen : κ → List τ
  queue : κ → List α

variable {κ τ α : Type*}

def State.empty : State κ τ α := ⟨fun _ => [], fun _ => []⟩

/-! ## The log of one key -/

section Log

variable [DecidableEq κ]

/-- How one operation changes the submissions of the present life of `k`. -/
def submittedStep (k : κ) (acc : List (τ × α)) : Op κ τ α → List (τ × α)
  | .begin k' => if k' = k then [] else acc
  | .submit k' t a => if k' = k then acc ++ [(t, a)] else acc
  | .take _ _ => acc

/-- What was submitted to `k` since its present life began, in that order. -/
def submitted (k : κ) (log : List (Op κ τ α)) : List (τ × α) :=
  log.foldl (submittedStep k) []

/-- How one operation changes the items taken in the present life of `k`. -/
def takenStep (k : κ) (acc : List α) : Op κ τ α → List α
  | .begin k' => if k' = k then [] else acc
  | .submit _ _ _ => acc
  | .take k' a => if k' = k then acc ++ [a] else acc

/-- What was taken from `k` since its present life began, in that order. -/
def taken (k : κ) (log : List (Op κ τ α)) : List α :=
  log.foldl (takenStep k) []

theorem submitted_concat (k : κ) (log : List (Op κ τ α)) (op : Op κ τ α) :
    submitted k (log ++ [op]) = submittedStep k (submitted k log) op := by
  simp [submitted]

theorem taken_concat (k : κ) (log : List (Op κ τ α)) (op : Op κ τ α) :
    taken k (log ++ [op]) = takenStep k (taken k log) op := by
  simp [taken]

/-- Only what the log says was submitted to `k` counts as submitted to `k`. -/
theorem mem_of_mem_submitted {k : κ} {log : List (Op κ τ α)} {t : τ} {a : α}
    (h : (t, a) ∈ submitted k log) : Op.submit k t a ∈ log := by
  induction log using List.reverseRecOn with
  | nil => simp [submitted] at h
  | append_singleton log op ih =>
      rw [submitted_concat] at h
      cases op with
      | begin k' =>
          simp only [submittedStep] at h
          split at h
          · simp at h
          · exact List.mem_append_left _ (ih h)
      | submit k' u b =>
          simp only [submittedStep] at h
          split at h
          · next hk =>
              subst hk
              rcases List.mem_append.mp h with h | h
              · exact List.mem_append_left _ (ih h)
              · obtain ⟨rfl, rfl⟩ : t = u ∧ a = b := by simpa using h
                exact List.mem_append_right _ (List.mem_singleton_self _)
          · exact List.mem_append_left _ (ih h)
      | take k' b => exact List.mem_append_left _ (ih h)

end Log

/-! ## Legal operations -/

variable [DecidableEq τ] (oneShot : τ → Bool)

/-- A submission under `t` is dropped after `seen`. -/
def dropped (seen : List τ) (t : τ) : Bool := oneShot t && decide (t ∈ seen)

/-- The items of a list of submissions, without the repeats of one-shot tags, when the
    tags in `seen` came before. -/
def dropRepeats (seen : List τ) : List (τ × α) → List α
  | [] => []
  | (t, a) :: l =>
      if dropped oneShot seen t then dropRepeats seen l else a :: dropRepeats (seen ++ [t]) l

variable {oneShot}

theorem dropped_append (seen more : List τ) (t : τ) :
    dropped oneShot (seen ++ more) t = (dropped oneShot seen t || dropped oneShot more t) := by
  simp [dropped, Bool.and_or_distrib_left]

/-- A tag that is itself dropped adds nothing to what is seen. -/
theorem dropped_concat_of_dropped {seen : List τ} {t u : τ} (h : dropped oneShot seen u) :
    dropped oneShot (seen ++ [u]) t = dropped oneShot seen t := by
  rw [dropped_append]
  by_cases htu : t = u
  · subst htu
    simp [h]
  · simp [dropped, htu]

/-- One more submission at the end adds its item, unless it is a one-shot repeat. -/
theorem dropRepeats_concat (seen : List τ) (l : List (τ × α)) (t : τ) (a : α) :
    dropRepeats oneShot seen (l ++ [(t, a)]) =
      dropRepeats oneShot seen l ++
        (if dropped oneShot (seen ++ l.map Prod.fst) t then [] else [a]) := by
  induction l generalizing seen with
  | nil =>
      simp only [List.nil_append, dropRepeats, List.map_nil, List.append_nil]
  | cons p l ih =>
      obtain ⟨u, b⟩ := p
      have hseen : ∀ s : List τ, s ++ u :: l.map Prod.fst = (s ++ [u]) ++ l.map Prod.fst := by
        intro s
        rw [List.append_assoc, List.singleton_append]
      simp only [List.cons_append, dropRepeats, List.map_cons]
      split
      · next hu =>
          rw [ih, hseen, dropped_append, dropped_append (seen ++ [u]),
            dropped_concat_of_dropped hu]
      · rw [ih, hseen, List.cons_append]

variable [DecidableEq κ]

/-- The invariant of a legal log: nothing is lost, duplicated or reordered for a key, and
    the tags remembered are those submitted. -/
structure Faithful (oneShot : τ → Bool) (f : State κ τ α) (log : List (Op κ τ α)) : Prop where
  split : ∀ k, taken k log ++ f.queue k = dropRepeats oneShot [] (submitted k log)
  tags : ∀ k t, dropped oneShot (f.seen k) t = dropped oneShot ((submitted k log).map Prod.fst) t

theorem Faithful.empty : Faithful oneShot (State.empty : State κ τ α) [] :=
  ⟨fun _ => rfl, fun _ _ => rfl⟩

theorem Faithful.begin {f : State κ τ α} {log : List (Op κ τ α)} (h : Faithful oneShot f log)
    {k : κ} (hk : f.queue k = []) :
    Faithful oneShot { f with seen := Function.update f.seen k [] } (log ++ [.begin k]) := by
  constructor
  · intro j
    rw [taken_concat, submitted_concat]
    by_cases hj : k = j
    · subst hj
      simp [takenStep, submittedStep, hk, dropRepeats]
    · simpa [takenStep, submittedStep, hj] using h.split j
  · intro j t
    rw [submitted_concat]
    by_cases hj : k = j
    · subst hj
      simp [submittedStep, dropped]
    · simpa [submittedStep, hj, Function.update_of_ne (Ne.symm hj)] using h.tags j t

theorem Faithful.submit_dropped {f : State κ τ α} {log : List (Op κ τ α)}
    (h : Faithful oneShot f log) {k : κ} {t : τ} (a : α) (hd : dropped oneShot (f.seen k) t) :
    Faithful oneShot f (log ++ [.submit k t a]) := by
  have hd' := (h.tags k t).symm.trans hd
  constructor
  · intro j
    rw [taken_concat, submitted_concat]
    by_cases hj : k = j
    · subst hj
      simp only [takenStep, submittedStep, if_true]
      rw [dropRepeats_concat, List.nil_append, if_pos hd', List.append_nil]
      exact h.split k
    · simpa [takenStep, submittedStep, hj] using h.split j
  · intro j u
    rw [submitted_concat]
    by_cases hj : k = j
    · subst hj
      simp only [submittedStep, if_true, List.map_append, List.map_cons, List.map_nil]
      rw [dropped_concat_of_dropped hd']
      exact h.tags k u
    · simpa [submittedStep, hj] using h.tags j u

theorem Faithful.submit {f : State κ τ α} {log : List (Op κ τ α)} (h : Faithful oneShot f log)
    {k : κ} {t : τ} (a : α) (hd : ¬ dropped oneShot (f.seen k) t) :
    Faithful oneShot
      { seen := Function.update f.seen k (f.seen k ++ [t])
        queue := Function.update f.queue k (f.queue k ++ [a]) } (log ++ [.submit k t a]) := by
  have hd' : ¬ dropped oneShot ((submitted k log).map Prod.fst) t := by rwa [← h.tags k t]
  constructor
  · intro j
    rw [taken_concat, submitted_concat]
    by_cases hj : k = j
    · subst hj
      simp only [takenStep, submittedStep, if_true, Function.update_self]
      rw [dropRepeats_concat, List.nil_append, if_neg hd', ← List.append_assoc, h.split k]
    · simpa [takenStep, submittedStep, hj, Function.update_of_ne (Ne.symm hj)] using h.split j
  · intro j u
    rw [submitted_concat]
    by_cases hj : k = j
    · subst hj
      simp only [submittedStep, if_true, Function.update_self, List.map_append, List.map_cons,
        List.map_nil]
      rw [dropped_append, dropped_append, h.tags k u]
    · simpa [submittedStep, hj, Function.update_of_ne (Ne.symm hj)] using h.tags j u

theorem Faithful.take {f : State κ τ α} {log : List (Op κ τ α)} (h : Faithful oneShot f log)
    {k : κ} {a : α} {rest : List α} (hk : f.queue k = a :: rest) :
    Faithful oneShot { f with queue := Function.update f.queue k rest } (log ++ [.take k a]) := by
  constructor
  · intro j
    rw [taken_concat, submitted_concat]
    by_cases hj : k = j
    · subst hj
      have := h.split k
      rw [hk] at this
      simpa [takenStep, submittedStep] using this
    · simpa [takenStep, submittedStep, hj, Function.update_of_ne (Ne.symm hj)] using h.split j
  · intro j u
    rw [submitted_concat]
    exact h.tags j u

variable [DecidableEq α]

/-- One operation; `none` when it is not legal. -/
def step (oneShot : τ → Bool) (f : State κ τ α) : Op κ τ α → Option (State κ τ α)
  | .begin k =>
      if f.queue k = [] then some { f with seen := Function.update f.seen k [] } else none
  | .submit k t a =>
      if dropped oneShot (f.seen k) t then some f
      else some { seen := Function.update f.seen k (f.seen k ++ [t])
                  queue := Function.update f.queue k (f.queue k ++ [a]) }
  | .take k a =>
      match f.queue k with
      | [] => none
      | b :: rest =>
          if a = b then some { f with queue := Function.update f.queue k rest } else none

theorem step_begin {f : State κ τ α} {k : κ} (h : f.queue k = []) :
    step oneShot f (.begin k) = some { f with seen := Function.update f.seen k [] } :=
  if_pos h

theorem step_submit_dropped {f : State κ τ α} {k : κ} {t : τ} (a : α)
    (h : dropped oneShot (f.seen k) t) : step oneShot f (.submit k t a) = some f :=
  if_pos h

theorem step_submit {f : State κ τ α} {k : κ} {t : τ} (a : α)
    (h : ¬ dropped oneShot (f.seen k) t) :
    step oneShot f (.submit k t a) = some
      { seen := Function.update f.seen k (f.seen k ++ [t])
        queue := Function.update f.queue k (f.queue k ++ [a]) } :=
  if_neg h

theorem step_take {f : State κ τ α} {k : κ} {a : α} {rest : List α} (h : f.queue k = a :: rest) :
    step oneShot f (.take k a) = some { f with queue := Function.update f.queue k rest } := by
  simp only [step, h, if_true]

theorem Faithful.step {f f' : State κ τ α} {log : List (Op κ τ α)} (h : Faithful oneShot f log)
    {op : Op κ τ α} (hs : step oneShot f op = some f') : Faithful oneShot f' (log ++ [op]) := by
  cases op with
  | begin k =>
      simp only [KeyedFifo.step, Option.ite_none_right_eq_some, Option.some.injEq] at hs
      obtain ⟨hk, rfl⟩ := hs
      exact h.begin hk
  | submit k t a =>
      simp only [KeyedFifo.step] at hs
      split at hs
      · next hd =>
          obtain rfl := Option.some.inj hs
          exact h.submit_dropped a hd
      · next hd =>
          obtain rfl := Option.some.inj hs
          exact h.submit a hd
  | take k a =>
      simp only [KeyedFifo.step] at hs
      split at hs
      · cases hs
      · next b rest hq =>
          split at hs
          · next hab =>
              subst hab
              obtain rfl := Option.some.inj hs
              exact h.take hq
          · cases hs

theorem Faithful.exec {f f' : State κ τ α} {log ops : List (Op κ τ α)}
    (h : Faithful oneShot f log) (hs : Lts.exec (KeyedFifo.step oneShot) f ops = some f') :
    Faithful oneShot f' (log ++ ops) := by
  induction ops generalizing f log with
  | nil =>
      obtain rfl := Option.some.inj hs
      rwa [List.append_nil]
  | cons op ops ih =>
      rw [Lts.exec_cons, Option.bind_eq_some_iff] at hs
      obtain ⟨g, hg, hrest⟩ := hs
      have := ih (h.step hg) hrest
      rwa [List.append_assoc, List.singleton_append] at this

/-- **FIFO law.** What was taken from a key, followed by what is still queued for it, is
    what was submitted to it, in order and without one-shot repeats. -/
theorem taken_append_queue {f : State κ τ α} {log : List (Op κ τ α)}
    (hs : Lts.exec (step oneShot) State.empty log = some f) (k : κ) :
    taken k log ++ f.queue k = dropRepeats oneShot [] (submitted k log) := by
  have := (Faithful.empty : Faithful oneShot (State.empty : State κ τ α) []).exec hs
  rw [List.nil_append] at this
  exact this.split k

end KeyedFifo
