/-
  A log whose entries are acknowledged in any order.

  Every entry has a key, and no key occurs twice. `acked` are the values of the entries that have
  been acknowledged, in the order of the log, and `behind` are the entries after that of a key.
  `newest p` is the last value that satisfies `p`. `newest_acknowledge` says what becomes of it
  when one more entry is acknowledged: the entry counts unless a newer one has been before.
-/
import Mathlib.Data.List.Basic
import Mathlib.Logic.Function.Basic

namespace Acks

variable {κ ε : Type*}

/-! ## The newest value -/

/-- The last value that satisfies `p`. -/
def newest (p : ε → Bool) (es : List ε) : Option ε := (es.filter p).getLast?

@[simp] theorem newest_nil (p : ε → Bool) : newest p [] = none := rfl

theorem newest_append (p : ε → Bool) (xs ys : List ε) :
    newest p (xs ++ ys) = (newest p ys).or (newest p xs) := by
  unfold newest
  rw [List.filter_append, List.getLast?_append]

theorem newest_singleton (p : ε → Bool) (e : ε) :
    newest p [e] = if p e then some e else none := by
  unfold newest
  rw [List.filter_singleton]
  cases p e <;> rfl

theorem newest_cons (p : ε → Bool) (e : ε) (es : List ε) :
    newest p (e :: es) = (newest p es).or (if p e then some e else none) := by
  rw [← newest_singleton, ← newest_append, List.singleton_append]

theorem newest_concat (p : ε → Bool) (es : List ε) (e : ε) :
    newest p (es ++ [e]) = if p e then some e else newest p es := by
  rw [newest_append, newest_singleton]
  cases p e <;> rfl

theorem newest_mem {p : ε → Bool} {es : List ε} {e : ε} (h : newest p es = some e) :
    e ∈ es ∧ p e = true := by
  have hmem : e ∈ es.filter p := List.mem_of_getLast? h
  exact List.mem_filter.mp hmem

theorem newest_eq_none {p : ε → Bool} {es : List ε} :
    newest p es = none ↔ ∀ e ∈ es, p e = false := by
  unfold newest
  rw [List.getLast?_eq_none_iff, List.filter_eq_nil_iff]
  simp only [Bool.not_eq_true]

/-! ## Acknowledged entries -/

/-- The values of the entries that have been acknowledged. -/
def acked (done : κ → Bool) (log : List (κ × ε)) : List ε :=
  (log.filter fun p => done p.1).map Prod.snd

theorem acked_append (done : κ → Bool) (xs ys : List (κ × ε)) :
    acked done (xs ++ ys) = acked done xs ++ acked done ys := by
  unfold acked
  rw [List.filter_append, List.map_append]

theorem acked_cons (done : κ → Bool) (k : κ) (e : ε) (log : List (κ × ε)) :
    acked done ((k, e) :: log) = if done k then e :: acked done log else acked done log := by
  unfold acked
  rw [List.filter_cons]
  dsimp only
  cases done k <;> rfl

theorem mem_acked {done : κ → Bool} {log : List (κ × ε)} {e : ε} :
    e ∈ acked done log ↔ ∃ k, (k, e) ∈ log ∧ done k = true := by
  simp [acked]

/-- New entries are not acknowledged yet. -/
theorem acked_new {done : κ → Bool} (log : List (κ × ε)) {new : List (κ × ε)}
    (h : ∀ p ∈ new, done p.1 = false) : acked done (log ++ new) = acked done log := by
  have hnone : new.filter (fun p => done p.1) = [] :=
    List.filter_eq_nil_iff.mpr fun p hp => by rw [h p hp]; exact Bool.false_ne_true
  rw [acked_append]
  unfold acked
  rw [hnone, List.map_nil, List.append_nil]

/-- When every entry has been acknowledged, nothing is missing. -/
theorem acked_all {done : κ → Bool} {log : List (κ × ε)} (h : ∀ p ∈ log, done p.1 = true) :
    acked done log = log.map Prod.snd := by
  unfold acked
  rw [List.filter_eq_self.mpr h]

theorem acked_congr {done done' : κ → Bool} {log : List (κ × ε)}
    (h : ∀ p ∈ log, done' p.1 = done p.1) : acked done' log = acked done log := by
  unfold acked
  rw [List.filter_congr h]

/-! ## One more acknowledgement -/

section

variable [DecidableEq κ]

/-- The entries after that of `k`. -/
def behind (k : κ) (log : List (κ × ε)) : List (κ × ε) :=
  (log.dropWhile fun p => p.1 ≠ k).tail

theorem behind_split {k : κ} {e : ε} {pre post : List (κ × ε)} (h : ∀ p ∈ pre, p.1 ≠ k) :
    behind k (pre ++ (k, e) :: post) = post := by
  unfold behind
  rw [List.dropWhile_append_of_pos fun p hp => decide_eq_true (h p hp),
    List.dropWhile_cons_of_neg (by simp), List.tail_cons]

/-- The entry of a key stands between those that come before and those behind. -/
theorem split_of_mem {k : κ} {e : ε} {log : List (κ × ε)} (hnodup : (log.map Prod.fst).Nodup)
    (h : (k, e) ∈ log) : ∃ pre, log = pre ++ (k, e) :: behind k log ∧
      (∀ p ∈ pre, p.1 ≠ k) ∧ ∀ p ∈ behind k log, p.1 ≠ k := by
  obtain ⟨pre, post, rfl⟩ := List.mem_iff_append.mp h
  rw [List.map_append, List.map_cons, List.nodup_append, List.nodup_cons] at hnodup
  obtain ⟨_, ⟨hpost, _⟩, hdisjoint⟩ := hnodup
  have hpre : ∀ p ∈ pre, p.1 ≠ k := fun p hp =>
    hdisjoint p.1 (List.mem_map_of_mem hp) k List.mem_cons_self
  rw [behind_split hpre]
  refine ⟨pre, rfl, hpre, ?_⟩
  rintro p hp rfl
  exact hpost (List.mem_map.mpr ⟨p, hp, rfl⟩)

variable {done : κ → Bool} {k : κ} {e : ε} {log : List (κ × ε)}

/-- Entries of other keys stay as they are. -/
theorem acked_update (h : ∀ p ∈ log, p.1 ≠ k) :
    acked (Function.update done k true) log = acked done log :=
  acked_congr fun p hp => Function.update_of_ne (h p hp) _ _

/-- Nothing else is acknowledged with an entry. -/
theorem mem_acked_update {e' : ε} (h : e' ∈ acked (Function.update done k true) log) :
    e' ∈ acked done log ∨ (k, e') ∈ log := by
  obtain ⟨k', hmem, hk'⟩ := mem_acked.mp h
  by_cases heq : k' = k
  · exact Or.inr (heq ▸ hmem)
  · rw [Function.update_of_ne heq] at hk'
    exact Or.inl (mem_acked.mpr ⟨k', hmem, hk'⟩)

/-- One more value is acknowledged, in its place. -/
theorem acked_acknowledge (hnodup : (log.map Prod.fst).Nodup) (h : (k, e) ∈ log)
    (hdone : done k = false) : ∃ pre, acked done log = acked done pre ++ acked done (behind k log) ∧
      acked (Function.update done k true) log =
        acked done pre ++ e :: acked done (behind k log) := by
  obtain ⟨pre, hlog, hpre, hbehind⟩ := split_of_mem hnodup h
  have hmid : ∀ d : κ → Bool, acked d log =
      acked d pre ++ if d k then e :: acked d (behind k log) else acked d (behind k log) := by
    intro d
    conv_lhs => rw [hlog]
    rw [acked_append, acked_cons]
  refine ⟨pre, ?_, ?_⟩
  · rw [hmid, hdone, if_neg Bool.false_ne_true]
  · rw [hmid, Function.update_self, if_pos rfl, acked_update hpre, acked_update hbehind]

/-- The newest acknowledged value after one more acknowledgement. -/
theorem newest_acknowledge (p : ε → Bool) (hnodup : (log.map Prod.fst).Nodup) (h : (k, e) ∈ log)
    (hdone : done k = false) :
    newest p (acked (Function.update done k true) log) =
      if p e then (newest p (acked done (behind k log))).or (some e)
      else newest p (acked done log) := by
  obtain ⟨pre, hbefore, hafter⟩ := acked_acknowledge hnodup h hdone
  rw [hafter, newest_append, newest_cons, hbefore, newest_append]
  cases hp : p e with
  | true =>
      rw [if_pos rfl, if_pos rfl]
      cases newest p (acked done (behind k log)) <;> rfl
  | false => rw [if_neg Bool.false_ne_true, if_neg Bool.false_ne_true, Option.or_none]

end

end Acks
