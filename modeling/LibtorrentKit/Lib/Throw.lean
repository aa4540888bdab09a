/-
  Programs that may throw, and keep what they have done before.

  `Prog σ ε α` runs on a state: it ends with a value or with an exception, in the state that it
  has reached either way; nothing is rolled back. It has no end where its behaviour is not
  defined. `reach fault here` is the beginning of an operation that may throw: `fault` names the
  one operation that does, and what it throws.

  `Ends p s r s'` says how a run of `p` ends; the lemmas `ends_…` take it apart, statement by
  statement. `guarded` catches what a program throws.
-/
import Mathlib.Control.Monad.Basic
import Mathlib.Tactic.Common

namespace Throw

/-- A program on the state `σ` that may throw `ε`; `none` is undefined behaviour. -/
abbrev Prog (σ ε α : Type) := ExceptT ε (StateT σ Option) α

variable {σ ε π α β : Type}

/-- The program ends in `s'`, with a value or an exception. -/
def Ends (p : Prog σ ε α) (s : σ) (r : Except ε α) (s' : σ) : Prop :=
  StateT.run (ExceptT.run p) s = some (r, s')

/-- Change the state. -/
def edit (f : σ → σ) : Prog σ ε Unit := modify f

/-- Change the state by an operation that may have no defined behaviour. -/
def attempt (f : σ → Option σ) : Prog σ ε Unit :=
  ExceptT.mk fun s => (f s).map fun s' => (.ok (), s')

/-- What the operation `here` throws. -/
def strike [DecidableEq π] (fault : Option (π × ε)) (here : π) : Option ε :=
  fault.bind fun f => if f.1 = here then some f.2 else none

/-- An operation that may throw before it has done anything. -/
def reach [DecidableEq π] (fault : Option (π × ε)) (here : π) : Prog σ ε Unit :=
  match strike fault here with
  | some e => throw e
  | none => pure ()

/-- Run a program, and handle what it throws. -/
def guarded (handler : ε → σ → α × σ) (p : Prog σ ε α) (s : σ) : Option (α × σ) :=
  (StateT.run (ExceptT.run p) s).map fun (r, s') =>
    match r with
    | .ok a => (a, s')
    | .error e => handler e s'

/-! ## How a program ends -/

theorem ends_pure {a : α} {s s' : σ} {r : Except ε α} :
    Ends (pure a : Prog σ ε α) s r s' ↔ r = .ok a ∧ s' = s := by
  show some (Except.ok a, s) = some (r, s') ↔ _
  rw [Option.some.injEq, Prod.mk.injEq]
  exact and_congr eq_comm eq_comm

theorem ends_throw {e : ε} {s s' : σ} {r : Except ε α} :
    Ends (throw e : Prog σ ε α) s r s' ↔ r = .error e ∧ s' = s := by
  show some (Except.error e, s) = some (r, s') ↔ _
  rw [Option.some.injEq, Prod.mk.injEq]
  exact and_congr eq_comm eq_comm

theorem ends_edit {f : σ → σ} {s s' : σ} {r : Except ε Unit} :
    Ends (edit f : Prog σ ε Unit) s r s' ↔ r = .ok () ∧ s' = f s := by
  show some (Except.ok (), f s) = some (r, s') ↔ _
  rw [Option.some.injEq, Prod.mk.injEq]
  exact and_congr eq_comm eq_comm

theorem ends_attempt {f : σ → Option σ} {s s' : σ} {r : Except ε Unit} :
    Ends (attempt f : Prog σ ε Unit) s r s' ↔ r = .ok () ∧ f s = some s' := by
  show (f s).map (fun s' => (Except.ok (), s')) = some (r, s') ↔ _
  rw [Option.map_eq_some_iff]
  constructor
  · rintro ⟨t, ht, heq⟩
    obtain ⟨rfl, rfl⟩ := Prod.mk.inj heq
    exact ⟨rfl, ht⟩
  · rintro ⟨rfl, ht⟩
    exact ⟨s', ht, rfl⟩

theorem ends_get {s s' : σ} {r : Except ε σ} :
    Ends (get : Prog σ ε σ) s r s' ↔ r = .ok s ∧ s' = s := by
  show some (Except.ok s, s) = some (r, s') ↔ _
  rw [Option.some.injEq, Prod.mk.injEq]
  exact and_congr eq_comm eq_comm

/-- A sequence goes on where its first part ends normally, and ends where it throws. -/
theorem ends_bind {p : Prog σ ε α} {f : α → Prog σ ε β} {s s' : σ} {r : Except ε β} :
    Ends (p >>= f) s r s' ↔
      (∃ a t, Ends p s (.ok a) t ∧ Ends (f a) t r s') ∨
        ∃ e, Ends p s (.error e) s' ∧ r = .error e := by
  have hrun : StateT.run (ExceptT.run (p >>= f)) s =
      (StateT.run (ExceptT.run p) s).bind fun x =>
        match x.1 with
        | .ok a => StateT.run (ExceptT.run (f a)) x.2
        | .error e => some (.error e, x.2) := by
    show (StateT.run (ExceptT.run p) s).bind _ = _
    congr 1
    funext x
    obtain ⟨y, t⟩ := x
    cases y <;> rfl
  unfold Ends
  rw [hrun, Option.bind_eq_some_iff]
  constructor
  · rintro ⟨⟨y, t⟩, hp, hf⟩
    cases y with
    | ok a => exact Or.inl ⟨a, t, hp, hf⟩
    | error e =>
        obtain ⟨rfl, rfl⟩ := Prod.mk.inj (Option.some.inj hf)
        exact Or.inr ⟨e, hp, rfl⟩
  · rintro (⟨a, t, hp, hf⟩ | ⟨e, hp, rfl⟩)
    · exact ⟨(.ok a, t), hp, hf⟩
    · exact ⟨(.error e, s'), hp, rfl⟩

section

variable [DecidableEq π] {fault : Option (π × ε)} {here : π}

theorem ends_reach {s s' : σ} {r : Except ε Unit} :
    Ends (reach fault here : Prog σ ε Unit) s r s' ↔
      s' = s ∧ ((strike fault here = none ∧ r = .ok ()) ∨
        ∃ e, strike fault here = some e ∧ r = .error e) := by
  unfold reach
  cases strike fault here with
  | none => simp [ends_pure, and_comm]
  | some e => simp [ends_throw, and_comm]

/-- An operation that may throw, before the rest of the program. -/
theorem ends_reach_bind {f : Unit → Prog σ ε β} {s s' : σ} {r : Except ε β} :
    Ends (reach fault here >>= f) s r s' ↔
      (strike fault here = none ∧ Ends (f ()) s r s') ∨
        ∃ e, strike fault here = some e ∧ s' = s ∧ r = .error e := by
  rw [ends_bind]
  simp only [ends_reach]
  constructor
  · rintro (⟨_, t, ⟨rfl, ⟨hnone, _⟩ | ⟨e, _, heq⟩⟩, hf⟩ | ⟨e, ⟨rfl, ⟨_, heq⟩ | ⟨e', hsome, heq⟩⟩, rfl⟩)
    · exact Or.inl ⟨hnone, hf⟩
    · cases heq
    · cases heq
    · obtain rfl := Except.error.inj heq
      exact Or.inr ⟨e, hsome, rfl, rfl⟩
  · rintro (⟨hnone, hf⟩ | ⟨e, hsome, rfl, rfl⟩)
    · exact Or.inl ⟨(), s, ⟨rfl, Or.inl ⟨hnone, trivial⟩⟩, hf⟩
    · exact Or.inr ⟨e, ⟨rfl, Or.inr ⟨e, hsome, rfl⟩⟩, rfl⟩

theorem strike_eq_some {e : ε} : strike fault here = some e ↔ fault = some (here, e) := by
  unfold strike
  cases fault with
  | none => simp
  | some f =>
      obtain ⟨p, x⟩ := f
      simp [Prod.mk.injEq, eq_comm]

theorem strike_none : strike (none : Option (π × ε)) here = none := rfl

end

theorem ends_edit_bind {f : σ → σ} {p : Unit → Prog σ ε β} {s s' : σ} {r : Except ε β} :
    Ends (edit f >>= p) s r s' ↔ Ends (p ()) (f s) r s' := by
  rw [ends_bind]
  simp [ends_edit, Unique.exists_iff]

theorem ends_get_bind {p : σ → Prog σ ε β} {s s' : σ} {r : Except ε β} :
    Ends (get >>= p) s r s' ↔ Ends (p s) s r s' := by
  rw [ends_bind]
  simp [ends_get]

theorem ends_map {f : α → β} {p : Prog σ ε α} {s s' : σ} {r : Except ε β} :
    Ends (f <$> p) s r s' ↔
      (∃ a, Ends p s (.ok a) s' ∧ r = .ok (f a)) ∨ ∃ e, Ends p s (.error e) s' ∧ r = .error e := by
  rw [← bind_pure_comp, ends_bind]
  apply or_congr_left
  constructor
  · rintro ⟨a, t, hp, hpure⟩
    obtain ⟨rfl, rfl⟩ := ends_pure.mp hpure
    exact ⟨a, hp, rfl⟩
  · rintro ⟨a, hp, rfl⟩
    exact ⟨a, s', hp, ends_pure.mpr ⟨rfl, rfl⟩⟩

/-- A guarded program ends normally, or its exception is handled. -/
theorem guarded_eq_some {handler : ε → σ → α × σ} {p : Prog σ ε α} {s s' : σ} {a : α} :
    guarded handler p s = some (a, s') ↔
      Ends p s (.ok a) s' ∨ ∃ e t, Ends p s (.error e) t ∧ handler e t = (a, s') := by
  unfold guarded Ends
  rw [Option.map_eq_some_iff]
  constructor
  · rintro ⟨⟨r, t⟩, hp, heq⟩
    cases r with
    | ok b =>
        obtain ⟨rfl, rfl⟩ := Prod.mk.inj heq
        exact Or.inl hp
    | error e => exact Or.inr ⟨e, t, hp, heq⟩
  · rintro (hp | ⟨e, t, hp, heq⟩)
    · exact ⟨_, hp, rfl⟩
    · exact ⟨_, hp, heq⟩

end Throw
