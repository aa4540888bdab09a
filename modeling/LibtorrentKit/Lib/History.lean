/-
  Facts about an append-only log, by position.

  `At log t e` says that entry `t` of the log is `e`; it stays true as the log grows.
  `NoneAfter p log t` says that no entry after position `t` satisfies `p`, and `Latest p log t`
  that `t` is the position of the newest entry that does. Both are decided by what is
  appended (`NoneAfter.append`, `Latest.append`). `since b log` is the part of the log after the
  newest entry that satisfies `b`.
-/
import Mathlib.Data.List.Infix
import Mathlib.Data.List.Basic

namespace History

variable {α : Type*}

/-- Entry `t` of the log is `e`. -/
def At (log : List α) (t : Nat) (e : α) : Prop := log[t]? = some e

/-- No entry after position `t` satisfies `p`. -/
def NoneAfter (p : α → Prop) (log : List α) (t : Nat) : Prop :=
  ∀ u e, t < u → At log u e → ¬ p e

/-- Position `t` holds the newest entry that satisfies `p`. -/
def Latest (p : α → Prop) (log : List α) (t : Nat) : Prop :=
  (∃ e, At log t e ∧ p e) ∧ NoneAfter p log t

theorem At.lt {log : List α} {t : Nat} {e : α} (h : At log t e) : t < log.length := by
  unfold At at h
  exact (List.getElem?_eq_some_iff.mp h).1

theorem At.mem {log : List α} {t : Nat} {e : α} (h : At log t e) : e ∈ log :=
  List.mem_of_getElem? h

theorem At.unique {log : List α} {t : Nat} {e e' : α} (h : At log t e) (h' : At log t e') :
    e = e' :=
  Option.some.inj (h.symm.trans h')

theorem exists_at_of_mem {log : List α} {e : α} (h : e ∈ log) : ∃ t, At log t e :=
  List.mem_iff_getElem?.mp h

theorem At.append {log : List α} {t : Nat} {e : α} (h : At log t e) (new : List α) :
    At (log ++ new) t e := by
  unfold At at *
  rw [List.getElem?_append_left (At.lt h), h]

theorem At.mono {log log' : List α} {t : Nat} {e : α} (h : At log t e) (hp : log <+: log') :
    At log' t e := by
  obtain ⟨new, rfl⟩ := hp
  exact h.append new

/-- An entry of the longer log is an old one, at its old position, or one of those appended. -/
theorem at_append {log new : List α} {t : Nat} {e : α} :
    At (log ++ new) t e ↔ At log t e ∨ (log.length ≤ t ∧ At new (t - log.length) e) := by
  constructor
  · intro h
    by_cases ht : t < log.length
    · left
      unfold At at *
      rwa [List.getElem?_append_left ht] at h
    · right
      have hle : log.length ≤ t := Nat.le_of_not_lt ht
      unfold At at *
      rw [List.getElem?_append_right hle] at h
      exact ⟨hle, h⟩
  · rintro (h | ⟨hle, h⟩)
    · exact h.append new
    · unfold At at *
      rw [List.getElem?_append_right hle, h]

theorem at_append_length {log new : List α} {t : Nat} {e : α} (h : At new t e) :
    At (log ++ new) (log.length + t) e :=
  at_append.mpr (Or.inr ⟨Nat.le_add_right _ _, by rwa [Nat.add_sub_cancel_left]⟩)

theorem at_concat {log : List α} {e : α} : At (log ++ [e]) log.length e := by
  simp [At]

theorem noneAfter_of_length_le {p : α → Prop} {log : List α} {t : Nat} (h : log.length ≤ t + 1) :
    NoneAfter p log t := by
  intro u e hu he
  have := he.lt
  omega

/-- Nothing in the new part satisfies `p`, so still nothing after `t` does. -/
theorem NoneAfter.append {p : α → Prop} {log new : List α} {t : Nat} (h : NoneAfter p log t)
    (hnew : ∀ e ∈ new, ¬ p e) : NoneAfter p (log ++ new) t := by
  intro u e hu he
  rcases at_append.mp he with he | ⟨_, he⟩
  · exact h u e hu he
  · exact hnew e he.mem

theorem NoneAfter.of_append {p : α → Prop} {log new : List α} {t : Nat}
    (h : NoneAfter p (log ++ new) t) : NoneAfter p log t :=
  fun u e hu he => h u e hu (he.append new)

/-- There is only one newest entry. -/
theorem Latest.unique {p : α → Prop} {log : List α} {t u : Nat} (h : Latest p log t)
    (h' : Latest p log u) : t = u := by
  obtain ⟨⟨e, he, hp⟩, hq⟩ := h
  obtain ⟨⟨e', he', hp'⟩, hq'⟩ := h'
  rcases Nat.lt_trichotomy t u with hlt | heq | hgt
  · exact absurd hp' (hq u e' hlt he')
  · exact heq
  · exact absurd hp (hq' t e hgt he)

/-! ## The part since an entry -/

/-- The entries after the newest one that satisfies `b`; all of them if none does. -/
def since (b : α → Bool) (log : List α) : List α :=
  log.foldl (fun acc e => if b e then [] else acc ++ [e]) []

theorem since_concat (b : α → Bool) (log : List α) (e : α) :
    since b (log ++ [e]) = if b e then [] else since b log ++ [e] := by
  simp [since]

theorem since_append {b : α → Bool} {new : List α} (h : ∀ e ∈ new, b e = false) (log : List α) :
    since b (log ++ new) = since b log ++ new := by
  induction new using List.reverseRecOn with
  | nil => rw [List.append_nil, List.append_nil]
  | append_singleton new e ih =>
      have he := h e (List.mem_append_right _ (List.mem_singleton_self e))
      rw [← List.append_assoc, since_concat, ih fun x hx => h x (List.mem_append_left _ hx),
        if_neg (by simp [he]), List.append_assoc]

end History
