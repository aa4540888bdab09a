/-
  Runs of a partial step function, for a system whose labels say what happens next.

  `exec step s ls` takes the steps named by `ls` one after the other. `EachStep` and
  `EachState` say that a condition holds at every step taken, or in every state
  reached, along such a run. Proved: the invariant rule with a side condition on the
  steps (`exec_reached`, `exec_invariant`), the rules for a part of the state that takes
  steps of its own (`exec_part`, `exec_lift`), and the rule that a property of the states
  holds along a run exactly when no step breaks the condition that protects it
  (`eachState_iff_eachStep`).
-/
import Mathlib.Data.List.Infix
import Mathlib.Data.List.Induction

namespace Lts

variable {σ ℓ : Type*} (step : σ → ℓ → Option σ)

/-- Take the steps named by `ls`, in order. -/
def exec (s : σ) (ls : List ℓ) : Option σ := ls.foldlM step s

/-- `P` holds of every step of the run from `s₀`, in the state it is taken from. -/
def EachStep (P : σ → ℓ → Prop) (s₀ : σ) (ls : List ℓ) : Prop :=
  ∀ pre l s, pre ++ [l] <+: ls → exec step s₀ pre = some s → P s l

/-- `P` holds of every state that the run from `s₀` goes through. -/
def EachState (P : σ → Prop) (s₀ : σ) (ls : List ℓ) : Prop :=
  ∀ pre s, pre <+: ls → exec step s₀ pre = some s → P s

variable {step}

@[simp] theorem exec_nil (s : σ) : exec step s [] = some s := rfl

theorem exec_cons (s : σ) (l : ℓ) (ls : List ℓ) :
    exec step s (l :: ls) = (step s l).bind fun s' => exec step s' ls := by
  unfold exec
  rw [List.foldlM_cons]
  rfl

theorem exec_append (s : σ) (xs ys : List ℓ) :
    exec step s (xs ++ ys) = (exec step s xs).bind fun s' => exec step s' ys := by
  unfold exec
  rw [List.foldlM_append]
  rfl

theorem exec_snoc_eq_some {s s' : σ} {ls : List ℓ} {l : ℓ} :
    exec step s (ls ++ [l]) = some s' ↔ ∃ t, exec step s ls = some t ∧ step t l = some s' := by
  rw [exec_append, Option.bind_eq_some_iff]
  simp only [exec_cons, exec_nil, Option.bind_fun_some]

theorem EachStep.init {P : σ → ℓ → Prop} {s₀ : σ} {ls : List ℓ} {l : ℓ}
    (h : EachStep step P s₀ (ls ++ [l])) : EachStep step P s₀ ls :=
  fun pre l' s hp hs => h pre l' s (hp.trans (List.prefix_append _ _)) hs

theorem EachStep.last {P : σ → ℓ → Prop} {s₀ s : σ} {ls : List ℓ} {l : ℓ}
    (h : EachStep step P s₀ (ls ++ [l])) (hs : exec step s₀ ls = some s) : P s l :=
  h ls l s (List.prefix_refl _) hs

theorem EachStep.nil {P : σ → ℓ → Prop} {s₀ : σ} : EachStep step P s₀ [] := by
  intro pre l s hp _
  simp at hp

theorem EachStep.snoc {P : σ → ℓ → Prop} {s₀ : σ} {ls : List ℓ} {l : ℓ}
    (h : EachStep step P s₀ ls) (hl : ∀ s, exec step s₀ ls = some s → P s l) :
    EachStep step P s₀ (ls ++ [l]) := by
  intro pre l' s hp hs
  rcases List.prefix_concat_iff.mp hp with heq | hp'
  · obtain ⟨rfl, hl'⟩ := List.append_inj' heq rfl
    obtain rfl : l' = l := by simpa using hl'
    exact hl s hs
  · exact h pre l' s hp' hs

theorem EachStep.and {P Q : σ → ℓ → Prop} {s₀ : σ} {ls : List ℓ} (hP : EachStep step P s₀ ls)
    (hQ : EachStep step Q s₀ ls) : EachStep step (fun s l => P s l ∧ Q s l) s₀ ls :=
  fun pre l s hp hs => ⟨hP pre l s hp hs, hQ pre l s hp hs⟩

theorem EachStep.mono {P Q : σ → ℓ → Prop} {s₀ : σ} {ls : List ℓ} (hP : EachStep step P s₀ ls)
    (hPQ : ∀ s l, P s l → Q s l) : EachStep step Q s₀ ls :=
  fun pre l s hp hs => hPQ s l (hP pre l s hp hs)

theorem EachStep.initial {P : σ → ℓ → Prop} {s₀ : σ} {pre ls : List ℓ}
    (h : EachStep step P s₀ ls) (hp : pre <+: ls) : EachStep step P s₀ pre :=
  fun pre' l s hp' hs => h pre' l s (hp'.trans hp) hs

/-- Check a condition along one run. -/
def checkEachStep (step : σ → ℓ → Option σ) (P : σ → ℓ → Bool) : σ → List ℓ → Bool
  | _, [] => true
  | s, l :: ls => P s l && (step s l).all fun s' => checkEachStep step P s' ls

theorem eachStep_of_check {P : σ → ℓ → Bool} {s₀ : σ} {ls : List ℓ}
    (h : checkEachStep step P s₀ ls = true) : EachStep step (fun s l => P s l = true) s₀ ls := by
  induction ls generalizing s₀ with
  | nil => exact EachStep.nil
  | cons l ls ih =>
      rw [checkEachStep, Bool.and_eq_true] at h
      intro pre l' s hp hs
      cases pre with
      | nil =>
          obtain rfl : l' = l := by simpa using List.cons_prefix_cons.mp hp
          obtain rfl : s₀ = s := Option.some.inj hs
          exact h.1
      | cons x pre =>
          obtain ⟨rfl, hp'⟩ := List.cons_prefix_cons.mp hp
          rw [exec_cons, Option.bind_eq_some_iff] at hs
          obtain ⟨t, ht, hs⟩ := hs
          have hrest := h.2
          rw [ht, Option.all_some] at hrest
          exact ih hrest pre l' s hp' hs

/-- The invariant rule: what holds at the start and is kept by every step that meets the side
    condition holds at the end of every run whose steps meet it. A step may use the run that has
    led to it. -/
theorem exec_reached (Inv : σ → Prop) {ok : σ → ℓ → Prop} {s₀ : σ} (h0 : Inv s₀)
    (hstep : ∀ pre s l s', exec step s₀ pre = some s → Inv s → ok s l → step s l = some s' →
      Inv s') :
    ∀ (ls : List ℓ) (s : σ), EachStep step ok s₀ ls → exec step s₀ ls = some s → Inv s := by
  intro ls
  induction ls using List.reverseRecOn with
  | nil =>
      intro s _ hs
      obtain rfl : s₀ = s := Option.some.inj hs
      exact h0
  | append_singleton ls l ih =>
      intro s hok hs
      obtain ⟨t, ht, htl⟩ := exec_snoc_eq_some.mp hs
      exact hstep ls t l s ht (ih t hok.init ht) (hok.last ht) htl

/-- The rule for steps without a side condition. -/
theorem exec_reached' (Inv : σ → Prop) {s₀ : σ} (h0 : Inv s₀)
    (hstep : ∀ pre s l s', exec step s₀ pre = some s → Inv s → step s l = some s' → Inv s')
    (ls : List ℓ) (s : σ) (hs : exec step s₀ ls = some s) : Inv s := by
  have hok : EachStep step (fun _ _ => True) s₀ ls := fun _ _ _ _ _ => trivial
  exact exec_reached Inv h0 (fun pre s l s' hpre hi _ => hstep pre s l s' hpre hi) ls s hok hs

/-- The rule for steps that are taken from any state. -/
theorem exec_invariant {Inv : σ → Prop} {ok : σ → ℓ → Prop} {s₀ : σ} (h0 : Inv s₀)
    (hstep : ∀ s l s', Inv s → ok s l → step s l = some s' → Inv s') :
    ∀ (ls : List ℓ) (s : σ), EachStep step ok s₀ ls → exec step s₀ ls = some s → Inv s :=
  exec_reached Inv h0 fun _ s l s' _ => hstep s l s'

theorem exec_invariant' (Inv : σ → Prop) {s₀ : σ} (h0 : Inv s₀)
    (hstep : ∀ s l s', Inv s → step s l = some s' → Inv s') (ls : List ℓ) (s : σ)
    (hs : exec step s₀ ls = some s) : Inv s :=
  exec_reached' Inv h0 (fun _ s l s' _ => hstep s l s') ls s hs

/-- When a step does at most one step of the part `part`, a run is a run of that part. -/
theorem exec_part {τ m : Type*} {stepPart : τ → m → Option τ} (part : σ → τ) {s₀ : σ}
    (hstep : ∀ s l s', step s l = some s' →
      part s' = part s ∨ ∃ k, stepPart (part s) k = some (part s'))
    {ls : List ℓ} {s : σ} (hs : exec step s₀ ls = some s) :
    ∃ ks, exec stepPart (part s₀) ks = some (part s) := by
  refine exec_invariant' (fun s => ∃ ks, exec stepPart (part s₀) ks = some (part s)) ⟨[], rfl⟩ ?_
    ls s hs
  rintro s l s' ⟨ks, hks⟩ hl
  rcases hstep s l s' hl with heq | ⟨k, hk⟩
  · exact ⟨ks, heq ▸ hks⟩
  · exact ⟨ks ++ [k], exec_snoc_eq_some.mpr ⟨part s, hks, hk⟩⟩

/-- The other way round: where every step of the part that `may` be taken is a step of the whole,
    so is a run of them. -/
theorem exec_lift {τ m : Type*} {stepPart : τ → m → Option τ} (part : σ → τ) {Inv : σ → Prop}
    {may : m → Prop} {ok : ℓ → Prop}
    (hlift : ∀ s k u, Inv s → may k → stepPart (part s) k = some u →
      ∃ l s', ok l ∧ step s l = some s' ∧ part s' = u ∧ Inv s')
    {ks : List m} {s : σ} {u : τ} (hs : Inv s) (hks : ∀ k ∈ ks, may k)
    (hrun : exec stepPart (part s) ks = some u) :
    ∃ ls s', (∀ l ∈ ls, ok l) ∧ exec step s ls = some s' ∧ part s' = u ∧ Inv s' := by
  induction ks generalizing s with
  | nil => exact ⟨[], s, by simp, rfl, Option.some.inj hrun, hs⟩
  | cons k ks ih =>
      rw [exec_cons, Option.bind_eq_some_iff] at hrun
      obtain ⟨v, hv, hrest⟩ := hrun
      obtain ⟨hk, hks⟩ := List.forall_mem_cons.mp hks
      obtain ⟨l, s', hl, hstep, rfl, hs'⟩ := hlift s k v hs hk hv
      obtain ⟨ls, t, hls, ht, hpart, hinv⟩ := ih hs' hks hrest
      refine ⟨l :: ls, t, List.forall_mem_cons.mpr ⟨hl, hls⟩, ?_, hpart, hinv⟩
      rw [exec_cons, hstep]
      exact ht

/-- The end of a run that does not get stuck, whatever stands for the others. -/
theorem exec_getD {s₀ d : σ} {ls : List ℓ} (h : (exec step s₀ ls).isSome = true) :
    exec step s₀ ls = some ((exec step s₀ ls).getD d) := by
  obtain ⟨s, hs⟩ := Option.isSome_iff_exists.mp h
  rw [hs, Option.getD_some]

/-- A property `P` of the states, kept by the steps that are `clean` and broken by each
    step that is not, holds along a run exactly when all its steps are clean. `env` is
    what is assumed of every step, `Inv` the invariant the clean steps keep. -/
theorem eachState_iff_eachStep {Inv P : σ → Prop} {clean env : σ → ℓ → Prop} {s₀ : σ}
    (h0 : Inv s₀) (hP : ∀ s, Inv s → P s)
    (hgood : ∀ s l s', Inv s → env s l → clean s l → step s l = some s' → Inv s')
    (hbad : ∀ s l s', Inv s → env s l → ¬ clean s l → step s l = some s' → ¬ P s')
    {ls : List ℓ} {s : σ} (hs : exec step s₀ ls = some s) (henv : EachStep step env s₀ ls) :
    EachState step P s₀ ls ↔ EachStep step clean s₀ ls := by
  constructor
  · intro h
    induction ls using List.reverseRecOn generalizing s with
    | nil => exact EachStep.nil
    | append_singleton ls l ih =>
        obtain ⟨t, ht, htl⟩ := exec_snoc_eq_some.mp hs
        have hpre := ih ht henv.init
          (fun pre u hp hu => h pre u (hp.trans (List.prefix_append _ _)) hu)
        refine hpre.snoc fun u hu => ?_
        obtain rfl : t = u := Option.some.inj (ht.symm.trans hu)
        have hinv : Inv t := exec_invariant h0
          (fun a b c hi hab hc => hgood a b c hi hab.1 hab.2 hc) ls t (henv.init.and hpre) ht
        by_contra hc
        exact hbad t l s hinv (henv.last ht) hc htl (h _ s (List.prefix_refl _) hs)
  · intro h pre t hp ht
    refine hP t (exec_invariant h0 (fun a b c hi hab hc => hgood a b c hi hab.1 hab.2 hc) pre t
      ((henv.initial hp).and (h.initial hp)) ht)

end Lts
