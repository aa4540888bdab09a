/-
  Operations and their effects.

  `run_inside`: what the host does inside the native session is a run of the session. `Logged`:
  the trace of the session holds, under the thread of each operation, the effect of what its call
  has answered. So the order of the effects is the one in which the operations were executed.
-/
import LibtorrentKit.Session.Identifiers
import LibtorrentKit.Swift.Calls
import LibtorrentKit.Swift.Outcomes

namespace LibtorrentKit

/-! ## The host inside the session -/

namespace World

variable {w w' : World} {env : Environment} {c : CallId}

theorem call_enter {api : Api} {answer : Option Response}
    (h : w.call env c api = some (w', answer)) :
    ∃ s, (w.session.record (.called c api)).enter env api = some (s, answer) := by
  unfold call at h
  split at h
  · next w₁ r hstep henter =>
      obtain ⟨rfl, rfl⟩ := Prod.mk.inj (Option.some.inj h)
      exact ⟨r.1, henter⟩
  · cases h

theorem finish_resume {response : Response} (h : w.finish env c = some (w', response)) :
    ∃ wait s, w.calls c = some wait ∧
      w.session.resume env wait.generation wait.api = some (s, response) := by
  unfold finish at h
  split at h
  · cases h
  · next wait hwait =>
      split at h
      · next w₁ r hstep hresume =>
          obtain ⟨rfl, rfl⟩ := Prod.mk.inj (Option.some.inj h)
          exact ⟨wait, r.1, hwait, hresume⟩
      · cases h

/-- What the call of a thread adds to the effects. -/
theorem call_adds {api : Api} {answer : Option Response}
    (h : w.call env c api = some (w', answer)) : w'.session.effects =
      w.session.effects ++ ((answer.bind (Effect.of api)).map fun e => (c, e)).toList := by
  obtain ⟨s, henter⟩ := call_enter h
  exact (call_effects henter (call_spec h).1).1

end World

namespace Host

/-- A step of the host is one of the session, or leaves the session alone. -/
theorem step_inside {s s' : Host} {l : Step} (h : s.step l = some s') :
    s'.world = s.world ∨ ∃ wl, s.world.step wl = some s'.world := by
  cases step_end h with
  | run env lane x op op' _ hhead hop hrun hspec =>
      cases runOp_world hrun hspec with
      | none _ _ heq => exact Or.inl heq
      | call answer _ hcall => exact Or.inr ⟨_, (World.call_spec hcall).1⟩
      | finish response _ hfinish => exact Or.inr ⟨_, (World.finish_spec hfinish).1⟩
      | report answer response _ hcall => exact Or.inr ⟨_, (World.call_spec hcall).1⟩
  | woke env waker w answer hlock hcall =>
      rw [woken_world]
      exact Or.inr ⟨_, (World.call_spec hcall).1⟩
  | wakeNothing waker => exact Or.inl (woken_world s waker)
  | returns x op =>
      refine Or.inl ?_
      unfold returns
      dsimp only
      split <;> rfl
  | destroy env lane w hhead hstorage hw => exact Or.inr ⟨_, hw⟩
  | deinit w _ _ hstorage hw => exact Or.inr ⟨_, hw⟩
  | alert env alert w hstorage hw => exact Or.inr ⟨_, hw⟩
  | submit | enqueue | cancel | drain | take | destroyNothing | wake | close | shutdown
  | shutdownAgain | closing | addDrain | addDestroy | release | deinitNothing => exact Or.inl rfl

/-- What a run of the host does inside the session is a run of the session. -/
theorem run_inside {ls : List Step} {s : Host} (hrun : Lts.exec step {} ls = some s) :
    ∃ ws, Lts.exec World.step {} ws = some s.world :=
  Lts.exec_part Host.world (fun _ _ _ hstep => step_inside hstep) hrun

end Host

/-! ## The answer of an operation -/

def ClosureResult.response : ClosureResult → Option Response
  | .nothing => none
  | .native response _ => some response

namespace Op

/-- What the native call of the operation has answered. -/
def answer (op : Op) : Option Response :=
  match op.phase with
  | .answered response => some response
  | .reporting response => some response
  | .closing response => some response
  | _ => op.yielded.bind ClosureResult.response

def effect (op : Op) : Option Effect := op.answer.bind (Effect.of op.api)

/-- The closure yields once it has run, and not before its call has been answered. -/
structure Yields (op : Op) : Prop where
  ok : op.Ok
  early : op.phase.rank ≤ 7 → op.yielded = none
  ran : op.yielded.isSome = true → op.runs = 1

theorem yields_new (lane : Lane) (semantics : Semantics) (api : Api) :
    Yields { lane, semantics, api } :=
  ⟨ok_new lane semantics api, fun _ => rfl, fun h => by cases h⟩

/-- A step that neither runs the closure nor yields. -/
theorem Yields.move {op op' : Op} (h : op.Yields) (hok : op'.Ok)
    (hyielded : op'.yielded = op.yielded) (hruns : op'.runs = op.runs)
    (hrank : op'.phase.rank ≤ 7 → op.phase.rank ≤ 7) : op'.Yields where
  ok := hok
  early hr := hyielded.trans (h.early (hrank hr))
  ran hs := hruns.trans (h.ran (hyielded ▸ hs))

/-- The closure yields. -/
theorem Yields.yield {op : Op} {result : ClosureResult} (hok : (op.yield result).Ok)
    (hruns : op.runs = 1) : (op.yield result).Yields where
  ok := hok
  early hr := absurd hr (by simp [Op.yield, OpPhase.rank])
  ran _ := hruns

theorem Run.yields {op op' : Op} (h : op.Run op') (hy : op.Yields) : op'.Yields := by
  have hok := h.ok hy.ok
  have hp := hy.ok.phase
  cases h with
  | skip hphase hlane =>
      rw [hphase] at hp
      exact .yield hok (congrArg (· + 1) hp.1)
  | start hphase =>
      have hnone := hy.early (by rw [hphase]; decide)
      exact ⟨hok, fun _ => hnone, fun hs => by rw [hnone] at hs; cases hs⟩
  | yield response lastError hphase =>
      refine .yield hok ?_
      rcases hphase with hphase | hphase
      · rw [hphase] at hp
        exact hp.1
      · rw [hphase] at hp
        exact hp.1
  | answer response hphase =>
      refine hy.move hok rfl rfl fun _ => ?_
      rcases hphase with hphase | hphase
      · rw [hphase]
        decide
      · rw [hphase]
        decide
  | refuse hphase | begin hphase | hold hphase | shutDown hphase | wait hphase
  | report response hphase | close response hphase =>
      refine hy.move hok rfl rfl fun _ => ?_
      rw [hphase]
      simp [OpPhase.rank]
  | decide result hphase | resume outcome hphase | finish hphase =>
      exact hy.move hok rfl rfl fun hr => absurd hr (by simp [OpPhase.rank])

theorem Touch.yields {op op' : Op} (h : op.Touch op') (hy : op.Yields) : op'.Yields := by
  have hok := h.ok hy.ok
  have hp := hy.ok.phase
  cases h with
  | enqueue hphase =>
      refine hy.move hok rfl rfl fun _ => ?_
      rw [hphase]
      decide
  | closed response hphase =>
      rw [hphase] at hp
      exact .yield hok hp.1
  | cancel | woken | returns => exact hy.move hok rfl rfl id

theorem Step.yields {op op' : Op} (h : op.Step op') (hy : op.Yields) : op'.Yields :=
  h.elim (fun h => h.yields hy) fun h => h.yields hy

/-- Before the answer there is none. -/
theorem Yields.answer_none {op : Op} (hy : op.Yields) (hrank : op.phase.rank ≤ 5) :
    op.answer = none := by
  have hyielded := hy.early (hrank.trans (by decide))
  unfold answer
  split
  · next heq => simp [heq, OpPhase.rank] at hrank
  · next heq => simp [heq, OpPhase.rank] at hrank
  · next heq => simp [heq, OpPhase.rank] at hrank
  · rw [hyielded]
    rfl

theorem Yields.effect_none {op : Op} (hy : op.Yields) (hrank : op.phase.rank ≤ 5) :
    op.effect = none := by
  rw [effect, hy.answer_none hrank]
  rfl

/-- Only the native call answers. -/
theorem Run.answer_cases {op op' : Op} (h : op.Run op') (hy : op.Yields) :
    op'.answer = op.answer ∨ ∃ response, (op.phase = .calling ∨ op.phase = .waiting) ∧
      op'.phase = .answered response := by
  have hboth : op.phase.rank ≤ 5 → op'.phase.rank ≤ 5 → op'.answer = op.answer := by
    intro hr hr'
    rw [hy.answer_none hr, (h.yields hy).answer_none hr']
  cases h with
  | answer response hphase => exact Or.inr ⟨response, hphase, rfl⟩
  | begin hphase | hold hphase | start hphase | wait hphase =>
      exact Or.inl (hboth (by rw [hphase]; decide) (by simp [OpPhase.rank]))
  | refuse hphase | shutDown hphase | report response hphase | close response hphase
  | decide result hphase | resume outcome hphase | finish hphase =>
      exact Or.inl (by simp [Op.answer, hphase])
  | skip hphase hlane =>
      have hyielded := hy.early (by rw [hphase]; decide)
      exact Or.inl (by simp [Op.answer, hphase, Op.yield, hyielded, ClosureResult.response])
  | yield response lastError hphase =>
      refine Or.inl ?_
      rcases hphase with hphase | hphase
      · simp [Op.answer, hphase, Op.yield, ClosureResult.response]
      · simp [Op.answer, hphase, Op.yield, ClosureResult.response]

/-- Only the answer of the native call changes the effect. -/
theorem Run.effect {op op' : Op} (h : op.Run op') (hy : op.Yields) :
    op'.effect = op.effect ∨ ∃ response, (op.phase = .calling ∨ op.phase = .waiting) ∧
      op'.phase = .answered response := by
  refine (h.answer_cases hy).imp_left fun heq => ?_
  unfold Op.effect
  rw [heq, h.kept.2.2]

theorem Touch.answer {op op' : Op} (h : op.Touch op') : op'.answer = op.answer := by
  cases h with
  | enqueue hphase => simp [Op.answer, hphase]
  | closed response hphase => simp [Op.answer, hphase, Op.yield, ClosureResult.response]
  | cancel | woken | returns => rfl

theorem Touch.effect {op op' : Op} (h : op.Touch op') : op'.effect = op.effect := by
  unfold Op.effect
  rw [h.answer, h.kept.2.2]

end Op

namespace Host

/-! ## The operations in the trace -/

def effectAt (s : Host) (x : OpId) : Option Effect := (s.ops.lookup x).bind Op.effect

/-- The effects in the trace are those of the operations. -/
structure Logged (s : Host) : Prop where
  keys : ∀ p ∈ s.world.session.effects, ∃ x, p.1 = x + 1
  nodup : (s.world.session.effects.map Prod.fst).Nodup
  effect : ∀ x e, (x + 1, e) ∈ s.world.session.effects ↔ s.effectAt x = some e

theorem logged_init : Logged {} where
  keys p hp := by cases hp
  nodup := List.nodup_nil
  effect x e := by
    refine iff_of_false (fun h => by cases h) ?_
    simp [effectAt]

theorem effectAt_insert {s s' : Host} {x : OpId} {op' : Op} (h : s'.ops = s.ops.insert x op') :
    s'.effectAt = Function.update s.effectAt x op'.effect := opAt_insert h

theorem effectAt_same {s s' : Host} {x : OpId} {op op' : Op} (hop : s.ops.lookup x = some op)
    (h : s'.ops = s.ops.insert x op') (heffect : op'.effect = op.effect) :
    s'.effectAt = s.effectAt := opAt_same hop h heffect

theorem effectAt_submit {s s' : Host} {x : OpId} {lane : Lane} {semantics : Semantics} {api : Api}
    (hnew : s.ops.lookup x = none) (h : s'.ops = s.ops.insert x { lane, semantics, api }) :
    s'.effectAt = s.effectAt :=
  opAt_submit hnew h ((Op.yields_new lane semantics api).effect_none (by simp [OpPhase.rank]))

theorem woken_effectAt (s : Host) (waker : Waker) : (s.woken waker).effectAt = s.effectAt :=
  opAt_woken waker fun _ _ _ _ htouch => htouch.effect

/-- What a step adds to the effects: that of the operation whose call it answers. -/
inductive Adds (s s' : Host) : Prop
  | nothing (heffects : s'.world.session.effects = s.world.session.effects)
      (hat : s'.effectAt = s.effectAt)
  | effect (x : OpId) (op : Op) (e : Effect) (hop : s.ops.lookup x = some op)
      (hrank : op.phase.rank ≤ 5)
      (heffects : s'.world.session.effects = s.world.session.effects ++ [(x + 1, e)])
      (hat : s'.effectAt = Function.update s.effectAt x (some e))

/-- The call of an operation is answered. -/
theorem adds_answer {s s' : Host} {x : OpId} {op : Op} {o : Option Effect}
    (hop : s.ops.lookup x = some op) (hy : op.Yields) (hrank : op.phase.rank ≤ 5)
    (heffects : s'.world.session.effects =
      s.world.session.effects ++ (o.map fun e => (x + 1, e)).toList)
    (hat : s'.effectAt = Function.update s.effectAt x o) : Adds s s' := by
  cases o with
  | none =>
      have hnone : s.effectAt x = none := by
        rw [effectAt, hop, Option.bind_some, hy.effect_none hrank]
      refine .nothing (heffects.trans (List.append_nil _)) ?_
      rw [hat, ← hnone, Function.update_eq_self]
  | some e => exact .effect x op e hop hrank heffects hat

theorem runOp_adds {s s' : Host} {env : Environment} {x : OpId} {op op' : Op}
    (hc : s.world.Callers) (hcalling : s.Calling) (hy : op.Yields)
    (hop : s.ops.lookup x = some op) (hspec : RunOp s s' x op op')
    (hworld : RunWorld s s' env x op op') : Adds s s' := by
  have hy' := hspec.run.yields hy
  have hat := effectAt_insert hspec.ops
  cases hworld with
  | none hphase hphase' heq =>
      refine .nothing (by rw [heq]) (effectAt_same hop hspec.ops ?_)
      rcases hspec.run.effect hy with heffect | ⟨_, hcall, _⟩
      · exact heffect
      · rcases hcall with hcall | hcall
        · simp [hcall, OpPhase.usesPointer] at hphase
        · simp [hcall, OpPhase.usesPointer] at hphase
  | call answer hphase hcall hphase' =>
      refine adds_answer hop hy (by rw [hphase]; decide) (World.call_adds hcall) ?_
      rw [hat]
      congr 1
      cases answer with
      | none => exact hy'.effect_none (by rw [hphase']; decide)
      | some response =>
          rw [Op.effect, Op.answer, hphase', hspec.run.kept.2.2]
          rfl
  | finish response hphase hfinish hphase' =>
      obtain ⟨wait, t, hwait, hresume⟩ := World.finish_resume hfinish
      have hapi : wait.api = op.api := by
        have hops := hcalling.ops x
        rw [hwait, waitingApi, hop, Option.bind_some, Op.waitingApi, if_pos hphase] at hops
        exact Option.some.inj hops
      have heffects := (World.resume_effects hc hwait hresume (World.finish_spec hfinish).1).1
      refine adds_answer hop hy (by rw [hphase]; decide) heffects ?_
      rw [hat, hapi, Op.effect, Op.answer, hphase', hspec.run.kept.2.2]
      rfl
  | report answer response hphase hcall hphase' =>
      have hadds := World.call_adds hcall
      have hnothing : answer.bind (Effect.of .takeLastError) = none := by
        cases answer with
        | none => rfl
        | some r => simp [Effect.of]
      rw [hnothing] at hadds
      refine .nothing (hadds.trans (List.append_nil _)) (effectAt_same hop hspec.ops ?_)
      rcases hspec.run.effect hy with heffect | ⟨_, hcall', _⟩
      · exact heffect
      · simp [hphase] at hcall'

theorem step_adds {s s' : Host} {l : Step} (hc : s.world.Callers) (hcalling : s.Calling)
    (hy : ∀ x op, s.ops.lookup x = some op → op.Yields) (hstep : s.step l = some s') :
    Adds s s' := by
  cases step_end hstep with
  | submit x lane semantics api hnew => exact .nothing rfl (effectAt_submit hnew rfl)
  | enqueue x op hop hphase =>
      exact .nothing rfl (effectAt_same hop rfl (Op.Touch.enqueue hphase).effect)
  | cancel x op hop hcancelled =>
      exact .nothing rfl (effectAt_same hop rfl (Op.Touch.cancel hcancelled).effect)
  | run env lane x op op' _ hhead hop hrun hspec =>
      exact runOp_adds hc hcalling (hy x op hop) hop hspec (runOp_world hrun hspec)
  | wakeNothing waker => exact .nothing (by rw [woken_world]) (woken_effectAt s waker)
  | woke env waker w answer hlock hcall =>
      refine .nothing ?_ (woken_effectAt _ waker)
      rw [woken_world]
      have hadds := World.call_adds hcall
      rw [World.wake_answers hcall] at hadds
      exact hadds.trans (List.append_nil _)
  | returns x op hop hreturned houtcome =>
      have hat : (s.setOp x { op with returned := true }).effectAt = s.effectAt :=
        effectAt_same hop rfl (Op.Touch.returns houtcome).effect
      unfold returns
      dsimp only
      split
      · exact .nothing rfl hat
      · exact .nothing rfl hat
  | destroy env lane w hhead hstorage hw | deinit w _ _ hstorage hw =>
      obtain rfl := Option.some.inj hw
      exact .nothing rfl rfl
  | alert env alert w hstorage hw =>
      simp only [World.step, Option.ite_none_left_eq_some, Option.map_eq_some_iff] at hw
      obtain ⟨_, t, hh, rfl⟩ := hw
      exact .nothing (Session.effects_within (Session.handleAlert_within hh)) rfl
  | drain | take | destroyNothing | wake | close | shutdown | shutdownAgain | closing | addDrain
  | addDestroy | release | deinitNothing => exact .nothing rfl rfl

theorem Logged.adds {s s' : Host} (h : s.Logged)
    (hy : ∀ x op, s.ops.lookup x = some op → op.Yields) (hadds : Adds s s') : s'.Logged := by
  cases hadds with
  | nothing heffects hat =>
      exact ⟨heffects ▸ h.keys, heffects ▸ h.nodup, fun x e => by rw [heffects, hat, h.effect]⟩
  | effect x op e hop hrank heffects hat =>
      have hnone : s.effectAt x = none := by
        rw [effectAt, hop, Option.bind_some, (hy x op hop).effect_none hrank]
      have hfresh : ∀ e', (x + 1, e') ∉ s.world.session.effects := fun e' hmem => by
        rw [h.effect, hnone] at hmem
        cases hmem
      constructor
      · intro p hp
        rw [heffects] at hp
        rcases List.mem_append.mp hp with hp | hp
        · exact h.keys p hp
        · exact ⟨x, congrArg Prod.fst (List.mem_singleton.mp hp)⟩
      · rw [heffects, List.map_append, List.map_singleton, List.nodup_append]
        refine ⟨h.nodup, List.nodup_singleton _, ?_⟩
        rintro c hc d hd rfl
        obtain rfl := List.mem_singleton.mp hd
        obtain ⟨⟨_, e'⟩, hp, heq⟩ := List.mem_map.mp hc
        obtain rfl : _ = x + 1 := heq
        exact hfresh e' hp
      · intro y e'
        rw [heffects, List.mem_append, h.effect, hat]
        by_cases hy : y = x
        · subst hy
          rw [Function.update_self, hnone]
          simp [eq_comm]
        · rw [Function.update_of_ne hy]
          simp [hy]

theorem run_yields {ls : List Step} {s : Host} (hrun : Lts.exec step {} ls = some s) {x : OpId}
    {op : Op} (hop : s.ops.lookup x = some op) : op.Yields :=
  Lts.exec_invariant' (fun s : Host => ∀ x op, s.ops.lookup x = some op → op.Yields)
    (fun x op hop => by simp at hop)
    (fun s l s' hs h => (step_ops h).keeps Op.yields_new Op.Step.yields hs) ls s hrun x op hop

theorem run_adds {ls : List Step} {s s' : Host} {l : Step}
    (hrun : Lts.exec step {} ls = some s) (hstep : s.step l = some s') : Adds s s' := by
  obtain ⟨ws, hws⟩ := run_inside hrun
  exact step_adds (World.run_callers hws).2 (run_calling hrun) (fun x op hop => run_yields hrun hop)
    hstep

theorem run_logged {ls : List Step} {s : Host} (hrun : Lts.exec step {} ls = some s) :
    s.Logged := by
  refine Lts.exec_reached' Logged logged_init (fun pre t l u ht hlogged hstep => ?_) ls s hrun
  exact hlogged.adds (fun x op hop => run_yields ht hop) (run_adds ht hstep)

/-! ## The callers -/

/-- The threads whose operations have returned to their callers. -/
def returnedAt (s : Host) : CallId → Bool
  | 0 => false
  | x + 1 => (s.ops.lookup x).any Op.returned

theorem returnedAt_insert {s s' : Host} {x : OpId} {op' : Op} (h : s'.ops = s.ops.insert x op') :
    s'.returnedAt = Function.update s.returnedAt (x + 1) op'.returned := by
  funext c
  cases c with
  | zero => rw [Function.update_of_ne (Nat.succ_ne_zero x).symm, returnedAt, returnedAt]
  | succ y =>
      by_cases hy : y = x
      · subst hy
        rw [Function.update_self, returnedAt, h, Finmap.lookup_insert, Option.any_some]
      · rw [Function.update_of_ne fun heq => hy (Nat.succ.inj heq), returnedAt, h,
          Finmap.lookup_insert_of_ne _ hy, returnedAt]

theorem returnedAt_same {s s' : Host} {x : OpId} {op op' : Op} (hop : s.ops.lookup x = some op)
    (h : s'.ops = s.ops.insert x op') (hreturned : op'.returned = op.returned) :
    s'.returnedAt = s.returnedAt := by
  have hself : s.returnedAt (x + 1) = op.returned := by rw [returnedAt, hop, Option.any_some]
  rw [returnedAt_insert h, hreturned, ← hself, Function.update_eq_self]

theorem returnedAt_congr {s s' : Host} (h : s'.ops = s.ops) : s'.returnedAt = s.returnedAt := by
  funext c
  cases c with
  | zero => rfl
  | succ x => rw [returnedAt, h, returnedAt]

theorem woken_returnedAt (s : Host) (waker : Waker) :
    (s.woken waker).returnedAt = s.returnedAt := by
  cases waker with
  | handler x =>
      simp only [woken]
      split
      · next op hop =>
          split
          · exact returnedAt_same hop rfl rfl
          · rfl
      · rfl
  | closer => exact returnedAt_congr rfl
  | closing x =>
      simp only [woken]
      split
      · next op hop =>
          split
          · exact returnedAt_same hop rfl rfl
          · rfl
      · rfl
  | shutdown =>
      simp only [woken]
      split
      · exact returnedAt_congr rfl
      · exact returnedAt_congr rfl
      · rfl

/-- Only the return of an operation returns it. -/
theorem step_returnedAt {s s' : Host} {l : Step} (hstep : s.step l = some s')
    (hl : ∀ x, l ≠ .returns x) : s'.returnedAt = s.returnedAt := by
  cases step_end hstep with
  | submit x lane semantics api hnew =>
      have hself : s.returnedAt (x + 1) = false := by rw [returnedAt, hnew, Option.any_none]
      have hinsert := @returnedAt_insert s (s.setOp x { lane, semantics, api }) x
        { lane, semantics, api } rfl
      rw [hinsert]
      show Function.update s.returnedAt (x + 1) false = s.returnedAt
      rw [← hself, Function.update_eq_self]
  | enqueue x op hop => exact returnedAt_same hop rfl rfl
  | cancel x op hop => exact returnedAt_same hop rfl rfl
  | run env lane x op op' _ hhead hop hrun hspec =>
      exact returnedAt_same hop hspec.ops hspec.run.flags.2.2
  | wakeNothing waker => exact woken_returnedAt s waker
  | woke env waker w answer =>
      rw [woken_returnedAt]
      exact returnedAt_congr rfl
  | returns x op => exact absurd rfl (hl x)
  | drain | take | destroy | destroyNothing | wake | close | shutdown | shutdownAgain | closing
  | addDrain | addDestroy | alert | release | deinit | deinitNothing => exact returnedAt_congr rfl

/-- Only `perform` makes an operation. -/
theorem submit_of_new {s s' : Host} {l : Step} (hstep : s.step l = some s') {x : OpId} {op' : Op}
    (hnone : s.ops.lookup x = none) (hop' : s'.ops.lookup x = some op') :
    l = .submit x op'.lane op'.semantics op'.api := by
  have hsame : s'.ops = s.ops → l = .submit x op'.lane op'.semantics op'.api := fun heq => by
    rw [heq, hnone] at hop'
    cases hop'
  have hchanged : ∀ {y : OpId} {op₀ op₁ : Op}, s.ops.lookup y = some op₀ →
      s'.ops = s.ops.insert y op₁ → l = .submit x op'.lane op'.semantics op'.api := by
    intro y op₀ op₁ hop₀ heq
    rw [lookup_none_of_insert hnone hop₀ heq] at hop'
    cases hop'
  have hwoken : ∀ {t : Host} (waker : Waker), t.ops = s.ops → s' = t.woken waker →
      l = .submit x op'.lane op'.semantics op'.api := by
    rintro t waker ht rfl
    rcases woken_ops t waker with heq | ⟨y, op₀, op₁, hop₀, _, heq⟩
    · exact hsame (heq.trans ht)
    · exact hchanged (ht ▸ hop₀) (ht ▸ heq)
  cases step_end hstep with
  | submit y lane semantics api hnew =>
      by_cases hxy : x = y
      · subst hxy
        rw [setOp_ops, Finmap.lookup_insert] at hop'
        obtain rfl := Option.some.inj hop'
        rfl
      · rw [setOp_ops, Finmap.lookup_insert_of_ne _ hxy, hnone] at hop'
        cases hop'
  | enqueue y op hop => exact hchanged hop rfl
  | cancel y op hop => exact hchanged hop rfl
  | run env lane y op op₁ _ hhead hop hrun hspec => exact hchanged hop hspec.ops
  | wakeNothing waker => exact hwoken waker rfl rfl
  | woke env waker w answer => exact @hwoken { s with world := w, lock := none } waker rfl rfl
  | returns y op hop =>
      refine @hchanged y op { op with returned := true } hop ?_
      unfold returns
      dsimp only
      split <;> rfl
  | drain | take | destroy | destroyNothing | wake | close | shutdown | shutdownAgain | closing
  | addDrain | addDestroy | alert | release | deinit | deinitNothing => exact hsame rfl

/-- The return of an operation. -/
theorem returns_spec {s s' : Host} {x : OpId} (hstep : s.step (.returns x) = some s') :
    ∃ op, s.ops.lookup x = some op ∧ op.returned = false ∧ op.outcome.isSome = true ∧
      s'.ops = s.ops.insert x { op with returned := true } ∧ s'.world = s.world ∧
      s'.returnedAt = Function.update s.returnedAt (x + 1) true := by
  cases step_end hstep with
  | returns x op hop hreturned houtcome =>
      have hops : (s.returns x op).ops = s.ops.insert x { op with returned := true } := by
        unfold returns
        dsimp only
        split <;> rfl
      have hworld : (s.returns x op).world = s.world := by
        unfold returns
        dsimp only
        split <;> rfl
      exact ⟨op, hop, hreturned, houtcome, hops, hworld, returnedAt_insert hops⟩

/-- An effect that is new belongs to an operation that has not returned. -/
theorem Adds.fresh {s s' : Host} (h : Adds s s')
    (hok : ∀ x op, s.ops.lookup x = some op → op.Ok) :
    ∃ new, s'.world.session.effects = s.world.session.effects ++ new ∧
      ∀ p ∈ new, s.returnedAt p.1 = false := by
  cases h with
  | nothing heffects hat => exact ⟨[], by rw [heffects, List.append_nil], fun p hp => by cases hp⟩
  | effect x op e hop hrank heffects hat =>
      refine ⟨_, heffects, fun p hp => ?_⟩
      obtain rfl := List.mem_singleton.mp hp
      show (s.ops.lookup x).any Op.returned = false
      rw [hop, Option.any_some, Bool.eq_false_iff]
      intro hreturned
      rcases (hok x op hop).outcome_iff.mp ((hok x op hop).returned hreturned) with hp | hp
      · rw [hp] at hrank
        exact absurd hrank (by decide)
      · rw [hp] at hrank
        exact absurd hrank (by decide)

end Host

end LibtorrentKit
