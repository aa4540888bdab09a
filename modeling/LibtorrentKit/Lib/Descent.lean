/-
  The potential method for runs of a partial step function.

  A potential is a number in each state. Where every step pays its cost out of the potential
  and out of a budget of its own, the costs of a run are bounded by the potential it starts
  with and by the budgets of its steps (`Potential.exec`). Steps that cost something and have
  no budget come to an end (`Potential.length_le`); where one of them is possible in every
  state that is not done, a run of them reaches one that is (`Potential.exists_done`).
-/
import LibtorrentKit.Lib.Run
import Mathlib.Algebra.BigOperators.Group.List.Basic
import Mathlib.Algebra.GroupWithZero.Nat

namespace Lts

variable {σ ℓ : Type*} {step : σ → ℓ → Option σ}

/-- Every step keeps the invariant `Inv` and pays its cost. -/
structure Potential (step : σ → ℓ → Option σ) (Inv : σ → Prop) (potential : σ → ℕ)
    (cost budget : ℓ → ℕ) : Prop where
  inv : ∀ s l s', Inv s → step s l = some s' → Inv s'
  pays : ∀ s l s', Inv s → step s l = some s' → cost l + potential s' ≤ potential s + budget l

namespace Potential

variable {Inv : σ → Prop} {potential : σ → ℕ} {cost budget : ℓ → ℕ}

theorem exec (h : Potential step Inv potential cost budget) {ls : List ℓ} {s t : σ} (hs : Inv s)
    (hrun : exec step s ls = some t) :
    Inv t ∧ (ls.map cost).sum + potential t ≤ potential s + (ls.map budget).sum := by
  induction ls generalizing s with
  | nil =>
      obtain rfl : s = t := Option.some.inj hrun
      exact ⟨hs, by simp⟩
  | cons l ls ih =>
      rw [exec_cons, Option.bind_eq_some_iff] at hrun
      obtain ⟨s', hstep, hrest⟩ := hrun
      obtain ⟨ht, hle⟩ := ih (h.inv s l s' hs hstep) hrest
      have hpays := h.pays s l s' hs hstep
      refine ⟨ht, ?_⟩
      simp only [List.map_cons, List.sum_cons]
      omega

/-- A run of steps that cost something and have no budget is at most as long as the potential. -/
theorem length_le (h : Potential step Inv potential cost budget) {own : ℓ → Prop}
    (hown : ∀ l, own l → 1 ≤ cost l ∧ budget l = 0) {ls : List ℓ} {s t : σ} (hs : Inv s)
    (hls : ∀ l ∈ ls, own l) (hrun : Lts.exec step s ls = some t) :
    ls.length + potential t ≤ potential s := by
  have hcost : ls.length ≤ (ls.map cost).sum := by
    have := List.length_le_sum_of_one_le (ls.map cost) fun c hc => by
      obtain ⟨l, hl, rfl⟩ := List.mem_map.mp hc
      exact (hown l (hls l hl)).1
    simpa using this
  have hbudget : (ls.map budget).sum = 0 := List.sum_eq_zero fun b hb => by
    obtain ⟨l, hl, rfl⟩ := List.mem_map.mp hb
    exact (hown l (hls l hl)).2
  have := (h.exec hs hrun).2
  omega

/-- Where a step of its own is possible in every state that is not `Done`, the system reaches
    one that is by steps of its own. -/
theorem exists_done (h : Potential step Inv potential cost budget) {own : ℓ → Prop}
    (hown : ∀ l, own l → 1 ≤ cost l ∧ budget l = 0) {Done : σ → Prop}
    (hprogress : ∀ s, Inv s → ¬ Done s → ∃ l s', own l ∧ step s l = some s') {s : σ}
    (hs : Inv s) : ∃ ls t, (∀ l ∈ ls, own l) ∧ Lts.exec step s ls = some t ∧ Done t := by
  induction hn : potential s using Nat.strong_induction_on generalizing s with
  | _ n ih =>
      by_cases hdone : Done s
      · exact ⟨[], s, by simp, rfl, hdone⟩
      · obtain ⟨l, s', hl, hstep⟩ := hprogress s hs hdone
        have hpays := h.pays s l s' hs hstep
        obtain ⟨hcost, hbudget⟩ := hown l hl
        obtain ⟨ls, t, hls, hrun, ht⟩ := ih (potential s') (by omega) (h.inv s l s' hs hstep) rfl
        refine ⟨l :: ls, t, List.forall_mem_cons.mpr ⟨hl, hls⟩, ?_, ht⟩
        rw [exec_cons, hstep]
        exact hrun

end Potential

end Lts
