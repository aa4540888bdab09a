/-
  Sums and collections over the entries of a finite map.

  `total f` adds up a number over the values, `collect f` gathers what `f` finds in them. Both
  change at one key at a time: an insert takes away what the key had and adds what it gets.
-/
import Mathlib.Algebra.BigOperators.Group.Multiset.Basic
import Mathlib.Data.Finmap
import Mathlib.Data.Multiset.Filter

namespace Finmap

variable {α β γ : Type*}

/-- The sum of `f` over the values. -/
def total (f : β → ℕ) (m : Finmap fun _ : α => β) : ℕ := (m.entries.map fun e => f e.2).sum

/-- What `f` finds in the values. -/
def collect (f : β → Option γ) (m : Finmap fun _ : α => β) : Multiset γ :=
  m.entries.filterMap fun e => f e.2

variable [DecidableEq α] {m : Finmap fun _ : α => β} {a : α} {b b' : β}

theorem insert_erase (m : Finmap fun _ : α => β) (a : α) (b : β) :
    (m.erase a).insert a b = m.insert a b := by
  refine ext_lookup fun x => ?_
  rcases eq_or_ne x a with rfl | hx
  · rw [lookup_insert, lookup_insert]
  · rw [lookup_insert_of_ne _ hx, lookup_insert_of_ne _ hx, lookup_erase_ne hx]

theorem insert_lookup (h : m.lookup a = some b) : m.insert a b = m := by
  refine ext_lookup fun x => ?_
  rcases eq_or_ne x a with rfl | hx
  · rw [lookup_insert, h]
  · rw [lookup_insert_of_ne _ hx]

theorem entries_insert (m : Finmap fun _ : α => β) (a : α) (b : β) :
    (m.insert a b).entries = ⟨a, b⟩ ::ₘ (m.erase a).entries := by
  rw [← insert_erase, entries_insert_of_notMem notMem_erase_self]

/-! ## Sums -/

section total

variable {f : β → ℕ}

theorem total_insert_eq (m : Finmap fun _ : α => β) (a : α) (b : β) :
    total f (m.insert a b) = f b + total f (m.erase a) := by
  rw [total, total, entries_insert, Multiset.map_cons, Multiset.sum_cons]

theorem total_insert_new (h : m.lookup a = none) : total f (m.insert a b) = f b + total f m := by
  rw [total, total, entries_insert_of_notMem (lookup_eq_none.mp h), Multiset.map_cons,
    Multiset.sum_cons]

theorem total_erase (h : m.lookup a = some b) : f b + total f (m.erase a) = total f m := by
  rw [← total_insert_eq, insert_lookup h]

theorem total_insert (h : m.lookup a = some b) :
    total f (m.insert a b') + f b = total f m + f b' := by
  have herase := total_erase (f := f) h
  rw [total_insert_eq]
  omega

end total

/-! ## Collections -/

section collect

variable {f : β → Option γ}

theorem mem_collect {c : γ} : c ∈ collect f m ↔ ∃ a b, m.lookup a = some b ∧ f b = some c := by
  simp only [collect, Multiset.mem_filterMap, Sigma.exists, mem_lookup_iff.symm, Option.mem_def]

theorem collect_insert (m : Finmap fun _ : α => β) (a : α) (b : β) :
    collect f (m.insert a b) = ((f b).toList : Multiset γ) + collect f (m.erase a) := by
  rw [collect, collect, entries_insert, Multiset.filterMap_cons]
  cases f b <;> rfl

theorem collect_erase (h : m.lookup a = some b) :
    collect f m = ((f b).toList : Multiset γ) + collect f (m.erase a) := by
  rw [← collect_insert, insert_lookup h]

end collect

end Finmap
