/-
  Raising the entries of a list.

  `raiseAll xs l` takes the pairs `(k, a)` of `l` in their order and raises the entry at position
  `k` to at least `a`. The order does not matter: each entry ends up as the greatest of what it
  was and of all that it was raised to (`raiseAll_getElem?`, `isGreatest_foldr_max`).
-/
import Mathlib.Order.Bounds.Basic
import Mathlib.Order.MinMax
import Mathlib.Data.List.Basic

variable {α : Type*} [LinearOrder α]

/-- `xs` with the entry at `p.1` raised to at least `p.2`. -/
def raise (xs : List α) (p : Nat × α) : List α := xs.modify p.1 (max p.2)

/-- `xs` after the raises in `l`. -/
def raiseAll (xs : List α) (l : List (Nat × α)) : List α := l.foldl raise xs

/-- The values to which `l` raises position `k`. -/
def raisesAt (l : List (Nat × α)) (k : Nat) : List α :=
  (l.filter fun p => p.1 = k).map Prod.snd

theorem raiseAll_append (xs : List α) (l₁ l₂ : List (Nat × α)) :
    raiseAll xs (l₁ ++ l₂) = raiseAll (raiseAll xs l₁) l₂ := List.foldl_append

omit [LinearOrder α] in
theorem mem_raisesAt {l : List (Nat × α)} {k : Nat} {a : α} : a ∈ raisesAt l k ↔ (k, a) ∈ l := by
  simp [raisesAt]

theorem foldr_max_left (a x : α) (l : List α) :
    l.foldr max (max a x) = max a (l.foldr max x) := by
  induction l with
  | nil => rfl
  | cons b l ih => rw [List.foldr_cons, ih, List.foldr_cons, max_left_comm]

/-- What a list of raises leaves at position `k`. -/
theorem raiseAll_getElem? (xs : List α) (l : List (Nat × α)) (k : Nat) :
    (raiseAll xs l)[k]? = xs[k]?.map fun x => (raisesAt l k).foldr max x := by
  induction l generalizing xs with
  | nil => simp [raiseAll, raisesAt]
  | cons p l ih =>
      show (raiseAll (raise xs p) l)[k]? = _
      rw [ih, raise, List.getElem?_modify, Option.map_eq_map, Option.map_map]
      congr 1
      funext x
      by_cases hp : p.1 = k
      · have hat : raisesAt (p :: l) k = p.2 :: raisesAt l k := by simp [raisesAt, hp]
        rw [hat, List.foldr_cons, Function.comp_apply, if_pos hp, foldr_max_left]
      · have hat : raisesAt (p :: l) k = raisesAt l k := by simp [raisesAt, hp]
        rw [hat, Function.comp_apply, if_neg hp]

/-- The running maximum is the greatest of the start value and the members. -/
theorem isGreatest_foldr_max (x : α) (l : List α) :
    IsGreatest (insert x {a | a ∈ l}) (l.foldr max x) := by
  induction l with
  | nil => simp
  | cons b l ih =>
      obtain ⟨hmem, hbound⟩ := ih
      refine ⟨?_, ?_⟩
      · rw [List.foldr_cons]
        rcases max_choice b (l.foldr max x) with hb | hl
        · rw [hb]
          exact Or.inr (List.mem_cons_self ..)
        · rw [hl]
          exact hmem.imp_right fun h => List.mem_cons_of_mem _ h
      · rintro a (rfl | ha)
        · exact le_max_of_le_right (hbound (Or.inl rfl))
        · rcases List.mem_cons.mp ha with rfl | ha
          · exact le_max_left ..
          · exact le_max_of_le_right (hbound (Or.inr ha))
