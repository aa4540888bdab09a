/-
  Calls that wait, and the invariant rule for the session.

  `World.Callers` ties `checkpoint.active` to the calls: the slot of a job belongs to a
  caller exactly while one call of `ltkit_session_checkpoint` waits for it. With it every
  critical section splits into `Session.Micro` steps (`World.step_micro`), and a property
  that these keep holds after every run (`World.run_invariant`).

  `completion_never_forgotten` is the result about the slot.
-/
import LibtorrentKit.Session.Slots

namespace LibtorrentKit

namespace World

open Session

/-- Thread `c` waits in a checkpoint of `id`. -/
def InCheckpoint (w : World) (c : CallId) (id : String) : Prop :=
  ∃ wait, w.calls c = some wait ∧ IsCheckpoint wait.api id

/-- The slot of a job belongs to a caller exactly while one checkpoint call waits for it. -/
structure Callers (w : World) : Prop where
  active : ∀ id, w.session.activeAt id = true ↔ ∃ c, w.InCheckpoint c id
  unique : ∀ id c c', w.InCheckpoint c id → w.InCheckpoint c' id → c = c'

/-! ## One checkpoint call -/

theorem reply_jobs (s : Session) (env : Environment) (m : String) (answer : Reply) :
    (s.reply env m answer).1.jobs = s.jobs := by
  cases answer with
  | fail code safeMessage => rfl
  | ok output =>
      simp only [reply]
      split <;> rfl

theorem activeAt_congr {s s' : Session} (h : s'.jobs = s.jobs) (i : String) :
    s'.activeAt i = s.activeAt i := by
  unfold Session.activeAt
  rw [h]

theorem abandonCheckpoint_active (value : Job) :
    (abandonCheckpoint value).1.checkpoint.active = false := by
  unfold abandonCheckpoint
  split
  · rw [startWaitingCompletion_active]
  · rfl

/-- A checkpoint call that returns gives up the slot. -/
theorem resumeCheckpoint_activeAt {s : Session} {env : Environment} {id : String} {g : Nat}
    {res : Session × Response} (h : s.resumeCheckpoint env id g = some res) (i : String) :
    res.1.activeAt i = if i = id then false else s.activeAt i := by
  unfold resumeCheckpoint at h
  dsimp only at h
  split at h
  · next hnone =>
      obtain rfl := Option.some.inj h
      by_cases hi : i = id
      · subst hi
        simp [Session.activeAt, fail, hnone]
      · rw [if_neg hi]
        rfl
  · next value hvalue =>
      have hfree : ∀ {worked t}, s.update env id worked = some t →
          worked.1.checkpoint.active = false →
          t.activeAt i = if i = id then false else s.activeAt i := by
        intro worked t hu ha
        obtain ⟨new, hu⟩ := update_spec hu
        rw [hu.activeAt, ha]
      split at h
      · obtain ⟨t, ht, rfl⟩ := Option.map_eq_some_iff.mp h
        have hleft := hfree ht (abandonCheckpoint_active value)
        exact hleft
      · obtain ⟨t, ht, rfl⟩ := Option.map_eq_some_iff.mp h
        refine Eq.trans (activeAt_congr ?_ i)
          (hfree ht (startWaitingCompletion_active { value with checkpoint := {} }))
        split
        · rfl
        · exact reply_jobs t env _ _

/-- A checkpoint call up to its wait: it returns and leaves the slots as they were, or it
    waits and has taken a free slot. -/
theorem checkpoint_activeAt {s : Session} {env : Environment} {id : String} {flush : Bool}
    {timeoutMs : Int} {res : Session × Option Response}
    (h : s.ltkitSessionCheckpoint env id flush timeoutMs = some res) :
    (res.2.isSome = true ∧ ∀ i, res.1.activeAt i = s.activeAt i) ∨
      (res.2 = none ∧ s.activeAt id = false ∧
        ∀ i, res.1.activeAt i = if i = id then true else s.activeAt i) := by
  unfold ltkitSessionCheckpoint at h
  split at h
  · obtain rfl := Option.some.inj h
    exact Or.inl ⟨rfl, fun _ => rfl⟩
  · split at h
    · obtain rfl := Option.some.inj h
      exact Or.inl ⟨rfl, fun _ => rfl⟩
    · next value hvalue =>
        split at h
        · split at h
          · obtain rfl := Option.some.inj h
            exact Or.inl ⟨rfl, fun _ => rfl⟩
          · obtain rfl := Option.some.inj h
            exact Or.inl ⟨rfl, activeAt_congr (reply_jobs s env _ _)⟩
        · split at h
          · obtain rfl := Option.some.inj h
            exact Or.inl ⟨rfl, fun _ => rfl⟩
          · split at h
            · obtain rfl := Option.some.inj h
              exact Or.inl ⟨rfl, fun _ => rfl⟩
            · next hbusy =>
                simp only [Bool.or_eq_true, not_or, Bool.not_eq_true] at hbusy
                have hfree : s.activeAt id = false := (activeAt_eq hvalue).trans hbusy.1.1
                obtain ⟨t, ht, h⟩ := Option.bind_eq_some_iff.mp h
                obtain ⟨new, hu⟩ := update_spec ht
                have htaken : ∀ i, t.activeAt i = if i = id then true else s.activeAt i := by
                  intro i
                  rw [hu.activeAt, beginCheckpoint_eq]
                split at h
                · obtain ⟨u, hut, rfl⟩ := Option.map_eq_some_iff.mp h
                  refine Or.inl ⟨rfl, fun i => ?_⟩
                  show u.1.activeAt i = s.activeAt i
                  rw [resumeCheckpoint_activeAt hut i, htaken]
                  split
                  · next hi => rw [hi, hfree]
                  · rfl
                · obtain rfl := Option.some.inj h
                  exact Or.inr ⟨rfl, hfree, htaken⟩

/-! ## Critical sections -/

theorem inCheckpoint_update {w : World} {c : CallId} {o : Option Wait} {s : Session} {d : CallId}
    {id : String} :
    InCheckpoint ⟨s, Function.update w.calls c o⟩ d id ↔
      (d = c ∧ ∃ wait, o = some wait ∧ IsCheckpoint wait.api id) ∨
        (d ≠ c ∧ w.InCheckpoint d id) := by
  unfold InCheckpoint
  by_cases hd : d = c
  · subst hd
    simp
  · simp [hd]

/-- A step that changes neither the owners of the slots nor the checkpoint calls. -/
theorem Callers.same {w w' : World} (h : w.Callers)
    (hact : ∀ i, w'.session.activeAt i = w.session.activeAt i)
    (hcalls : ∀ c id, w'.InCheckpoint c id ↔ w.InCheckpoint c id) : w'.Callers where
  active id := by
    rw [hact, h.active]
    exact exists_congr fun c => (hcalls c id).symm
  unique id c c' hc hc' := h.unique id c c' ((hcalls c id).mp hc) ((hcalls c' id).mp hc')

/-- What a call does after its wait, while the callers are in order. -/
theorem Callers.resumed {w : World} {env : Environment} {c : CallId} {wait : Wait}
    {res : Session × Response} (hc : w.Callers) (hwait : w.calls c = some wait)
    (h : w.session.resume env wait.generation wait.api = some res) :
    Moves (fun _ => True) w.session res.1 :=
  resume_moves (fun _ => True)
    (fun id hck => ⟨trivial, (hc.active id).mpr ⟨c, wait, hwait, hck⟩⟩) h

theorem isCheckpoint_unique {api : Api} {id id' : String} (h : IsCheckpoint api id)
    (h' : IsCheckpoint api id') : id = id' := by
  obtain ⟨f, t, rfl⟩ := h
  obtain ⟨f', t', heq⟩ := h'
  injection heq

/-- Every critical section keeps the slots in order and tied to their callers. -/
theorem step_callers {w w' : World} {l : Step} (hs : w.session.Slots) (hc : w.Callers)
    (h : w.step l = some w') : w'.session.Slots ∧ w'.Callers := by
  cases l with
  | alert env alert =>
      simp only [step, Option.ite_none_left_eq_some, Option.map_eq_some_iff] at h
      obtain ⟨_, s, hh, rfl⟩ := h
      exact ⟨handleAlert_slots hh hs,
        hc.same (handleAlert_activeAt hh hs) fun _ _ => Iff.rfl⟩
  | destroy =>
      obtain rfl := Option.some.inj h
      exact ⟨hs, hc.same (fun _ => rfl) fun _ _ => Iff.rfl⟩
  | call env c api =>
      simp only [step, Option.ite_none_left_eq_some, Option.map_eq_some_iff, Bool.or_eq_true,
        not_or, Bool.not_eq_true, Option.isSome_eq_false_iff, Option.isNone_iff_eq_none] at h
      obtain ⟨⟨hfree, _⟩, res, hres, rfl⟩ := h
      have hnot : ∀ id, ¬ w.InCheckpoint c id := by
        rintro id ⟨wait, hwait, _⟩
        simp [hfree] at hwait
      have hslots : res.1.Slots := by
        rcases enter_moves (fun _ => True) (fun _ _ => trivial) hres with hm | hm
        · exact hm.slots hs
        · exact hm.slots hs
      -- unless the call now waits in a checkpoint, nothing changes for the other callers
      have hother : ∀ {s : Session} {o : Option Wait} d id,
          (∀ wait, o = some wait → ¬ IsCheckpoint wait.api id) →
          (InCheckpoint ⟨s, Function.update w.calls c o⟩ d id ↔ w.InCheckpoint d id) := by
        intro s o d id ho
        rw [inCheckpoint_update]
        constructor
        · rintro (⟨_, wait, hw, hck⟩ | ⟨_, h⟩)
          · exact absurd hck (ho wait hw)
          · exact h
        · intro h
          exact Or.inr ⟨fun hd => hnot id (hd ▸ h), h⟩
      by_cases hck : ∃ id, IsCheckpoint api id
      · obtain ⟨id, flush, timeoutMs, rfl⟩ := hck
        rcases checkpoint_activeAt hres with ⟨hsome, hact⟩ | ⟨hnone, hwas, hact⟩
        · obtain ⟨response, hr⟩ := Option.isSome_iff_exists.mp hsome
          rw [hr]
          exact ⟨hslots, hc.same hact fun d i => hother d i fun wait hw => by cases hw⟩
        · rw [hnone]
          have hin : ∀ d i, InCheckpoint ⟨res.1, Function.update w.calls c
              (some ⟨.checkpoint id flush timeoutMs, res.1.wakeGeneration⟩)⟩ d i ↔
              (d = c ∧ i = id) ∨ w.InCheckpoint d i := by
            intro d i
            by_cases hi : i = id
            · subst hi
              rw [inCheckpoint_update]
              have hck : IsCheckpoint (.checkpoint i flush timeoutMs) i := ⟨_, _, rfl⟩
              by_cases hd : d = c
              · simp [hd, hck]
              · simp [hd]
            · rw [hother d i]
              · simp [hi]
              · rintro wait hw hck
                obtain rfl := Option.some.inj hw
                exact hi (isCheckpoint_unique hck ⟨_, _, rfl⟩)
          have hempty : ∀ d, ¬ w.InCheckpoint d id := by
            intro d hd
            have := (hc.active id).mpr ⟨d, hd⟩
            rw [show w.session.activeAt id = false from hwas] at this
            cases this
          refine ⟨hslots, fun i => ?_, fun i d d' hd hd' => ?_⟩
          · show res.1.activeAt i = true ↔ _
            rw [hact]
            simp only [hin]
            split
            · next hi => simp [hi]
            · next hi =>
                simp only [hi, and_false, false_or]
                exact hc.active i
          · rcases (hin d i).mp hd with ⟨rfl, rfl⟩ | h1
            · rcases (hin d' i).mp hd' with ⟨rfl, _⟩ | h2
              · rfl
              · exact absurd h2 (hempty d')
            · rcases (hin d' i).mp hd' with ⟨rfl, rfl⟩ | h2
              · exact absurd h1 (hempty d)
              · exact hc.unique i d d' h1 h2
      · have hmoves := enter_moves (fun _ => False) (fun id h => hck ⟨id, h⟩) hres
        have hact : ∀ i, res.1.activeAt i = w.session.activeAt i := by
          rcases hmoves with hm | hm
          · exact hm.activeAt
          · exact hm.activeAt
        cases hr : res.2 with
        | some response =>
            exact ⟨hslots, hc.same hact fun d i => hother d i fun wait hw => by cases hw⟩
        | none =>
            refine ⟨hslots, hc.same hact fun d i => hother d i fun wait hw hw' => ?_⟩
            obtain rfl := Option.some.inj hw
            exact hck ⟨i, hw'⟩
  | resume env c =>
      obtain ⟨wait, res, hwait, hres, rfl⟩ := step_resume h
      have hactive : ∀ id, IsCheckpoint wait.api id → w.session.activeAt id = true :=
        fun id hck => (hc.active id).mpr ⟨c, wait, hwait, hck⟩
      have hslots : res.1.Slots := (hc.resumed hwait hres).slots hs
      have hgone : ∀ {s : Session} d i, InCheckpoint ⟨s, Function.update w.calls c none⟩ d i ↔
          d ≠ c ∧ w.InCheckpoint d i := by
        intro s d i
        rw [inCheckpoint_update]
        simp
      by_cases hck : ∃ id, IsCheckpoint wait.api id
      · obtain ⟨id, hid⟩ := hck
        have hmine : w.InCheckpoint c id := ⟨wait, hwait, hid⟩
        have hact : ∀ i, res.1.activeAt i = if i = id then false else w.session.activeAt i := by
          obtain ⟨api, g⟩ := wait
          obtain ⟨flush, timeoutMs, rfl⟩ := hid
          exact resumeCheckpoint_activeAt hres
        refine ⟨hslots, fun i => ?_, fun i d d' hd hd' => ?_⟩
        · show res.1.activeAt i = true ↔ ∃ d, InCheckpoint ⟨_, _⟩ d i
          rw [hact]
          simp only [hgone]
          split
          · next hi =>
              subst hi
              simp only [Bool.false_eq_true, false_iff, not_exists, not_and]
              exact fun d hne hd => hne (hc.unique i d c hd hmine)
          · next hi =>
              rw [hc.active]
              refine exists_congr fun d => ⟨fun hd => ⟨?_, hd⟩, And.right⟩
              rintro rfl
              obtain ⟨wait', hwait', hck'⟩ := hd
              obtain rfl := Option.some.inj (hwait.symm.trans hwait')
              exact hi (isCheckpoint_unique hck' hid)
        · exact hc.unique i d d' ((hgone d i).mp hd).2 ((hgone d' i).mp hd').2
      · have hmoves := resume_moves (fun _ => False) (fun id h => absurd ⟨id, h⟩ hck) hres
        refine ⟨hslots, hc.same hmoves.activeAt fun d i => ?_⟩
        rw [returned, hgone]
        refine ⟨And.right, fun hd => ⟨?_, hd⟩⟩
        rintro rfl
        obtain ⟨wait', hwait', hck'⟩ := hd
        obtain rfl := Option.some.inj (hwait.symm.trans hwait')
        exact hck ⟨i, hck'⟩

/-- After every run the slots are in order and tied to their callers. -/
theorem run_callers {ls : List Step} {w : World} (hrun : Lts.exec step {} ls = some w) :
    w.session.Slots ∧ w.Callers := by
  have h0 : Slots {} ∧ Callers {} := by
    refine ⟨fun id value hv => by simp at hv, fun id => ?_, fun id c c' hc _ => ?_⟩
    · simp [Session.activeAt, InCheckpoint]
    · obtain ⟨wait, hwait, _⟩ := hc
      cases hwait
  exact Lts.exec_invariant' (fun w : World => w.session.Slots ∧ w.Callers) h0
    (fun w l w' h hw => step_callers h.1 h.2 hw) ls w hrun

/-! ## The invariant rule -/

/-- The steps that critical sections are made of. -/
inductive Micro (s : Session) : Session → Prop
  | called (c : CallId) (api : Api) : Micro s (s.record (.called c api))
  | returned (c : CallId) (api : Api) (response : Response) :
      Micro s (s.record (.returned c api response))
  | move {s' : Session} (h : Move (fun _ => True) s s') : Micro s s'
  | life {s' : Session} (h : Life s s') : Micro s s'
  | alert {s' : Session} (env : Environment) (alert : Alert) (hrunning : s.shuttingDown = false)
      (h : s.handleAlert env alert = some s') : Micro s s'
  | destroy : Micro s { s with shuttingDown := true }

theorem moves_micro {s s' : Session} (h : Moves (fun _ => True) s s') :
    Relation.ReflTransGen Micro s s' :=
  Relation.ReflTransGen.mono (fun _ _ => Micro.move) _ _ h

/-- A call, up to its return or its wait. -/
theorem enter_micro {s : Session} {env : Environment} {c : CallId} {api : Api}
    {res : Session × Option Response} (h : (s.record (.called c api)).enter env api = some res) :
    Relation.ReflTransGen Micro s res.1 := by
  refine .head (.called c api) ?_
  rcases enter_moves (fun _ => True) (fun _ _ => trivial) h with hm | hm
  · exact moves_micro hm
  · exact .single (.life hm)

/-- A call after its wait. -/
theorem resume_micro {w : World} {env : Environment} {c : CallId} {wait : Wait}
    {res : Session × Response} (hc : w.Callers) (hwait : w.calls c = some wait)
    (h : w.session.resume env wait.generation wait.api = some res) :
    Relation.ReflTransGen Micro w.session res.1 :=
  moves_micro (hc.resumed hwait h)

theorem step_micro {w w' : World} {l : Step} (hc : w.Callers) (h : w.step l = some w') :
    Relation.ReflTransGen Micro w.session w'.session := by
  cases l with
  | alert env alert =>
      simp only [step, Option.ite_none_left_eq_some, Option.map_eq_some_iff, Bool.or_eq_true,
        not_or, Bool.not_eq_true] at h
      obtain ⟨⟨hrunning, _⟩, s, hh, rfl⟩ := h
      exact .single (.alert env alert hrunning hh)
  | destroy =>
      obtain rfl := Option.some.inj h
      exact .single .destroy
  | call env c api =>
      simp only [step, Option.ite_none_left_eq_some, Option.map_eq_some_iff] at h
      obtain ⟨_, res, hres, rfl⟩ := h
      have hmid := enter_micro hres
      cases hr : res.2 with
      | some response => exact hmid.tail (.returned c api response)
      | none => exact hmid
  | resume env c =>
      obtain ⟨wait, res, hwait, hres, rfl⟩ := step_resume h
      exact (resume_micro hc hwait hres).tail (.returned c wait.api res.2)

/-- What a step that handles no alert leaves in the trace. -/
theorem step_fromCall {w w' : World} {l : Step} (hc : w.Callers) (h : w.step l = some w') :
    (∃ env alert, l = .alert env alert) ∨
      Grown (fun e => e.isCall = true ∨ e.FromCall) w.session w'.session := by
  cases l with
  | alert env alert => exact Or.inl ⟨env, alert, rfl⟩
  | destroy =>
      obtain rfl := Option.some.inj h
      exact Or.inr (.same rfl)
  | call env c api =>
      simp only [step, Option.ite_none_left_eq_some, Option.map_eq_some_iff] at h
      obtain ⟨_, res, hres, rfl⟩ := h
      have hdone : Grown (fun e => e.isCall = true ∨ e.FromCall) w.session res.1 :=
        (Grown.record (Or.inl rfl)).trans ((enter_fromCall hres).mono fun _ he => Or.inr he)
      refine Or.inr ?_
      cases hr : res.2 with
      | some response => exact hdone.trans (.record (Or.inl rfl))
      | none => exact hdone
  | resume env c =>
      obtain ⟨wait, res, hwait, hres, rfl⟩ := step_resume h
      have hm := hc.resumed hwait hres
      exact Or.inr ((hm.fromCall.mono fun _ he => Or.inr he).trans (.record (Or.inl rfl)))

/-- One session has become the other: its trace has grown, and a shutdown is final. -/
structure Grows (s s' : Session) : Prop where
  trace : s.trace <+: s'.trace
  shuttingDown : s'.shuttingDown = false → s.shuttingDown = false

theorem Grows.refl (s : Session) : Grows s s := ⟨List.prefix_refl _, id⟩

theorem Grows.trans {s t u : Session} (h : Grows s t) (h' : Grows t u) : Grows s u :=
  ⟨h.trace.trans h'.trace, fun hu => h.shuttingDown (h'.shuttingDown hu)⟩

theorem update_grows {s s' : Session} {env : Environment} {id : String}
    {worked : Job × List Action} (h : s.update env id worked = some s') : Grows s s' := by
  obtain ⟨new, hu⟩ := update_spec h
  exact ⟨⟨new, hu.trace.symm⟩, fun hs => hu.shuttingDown ▸ hs⟩

theorem record_grows (s : Session) (e : Entry) : Grows s (s.record e) :=
  ⟨List.prefix_append _ _, id⟩

theorem Micro.grows {s s' : Session} (h : Micro s s') : Grows s s' := by
  cases h with
  | called c api => exact record_grows s _
  | returned c api response => exact record_grows s _
  | destroy => exact ⟨List.prefix_refl _, fun h => by cases h⟩
  | alert env alert hrunning hh =>
      rcases handleAlert_cases hh with rfl | ⟨id, value, _, _, _, hupdate⟩
      · exact record_grows s _
      · exact (record_grows s _).trans (update_grows hupdate)
  | move h =>
      cases h with
      | error e => exact ⟨List.prefix_refl _, id⟩
      | wake => exact ⟨List.prefix_refl _, id⟩
      | read env json hfront hpop =>
          unfold popEvent at hpop
          split at hpop
          · obtain rfl := Option.some.inj hpop
            exact ⟨List.prefix_append _ _, id⟩
          · cases hpop
      | work env id hvalue hwork hupdate => exact update_grows hupdate
  | life h =>
      cases h with
      | insert env r params desired handle hrunning hfree hcan hadd hinsert =>
          obtain ⟨_, hsd, _, _, new, htr, _⟩ := insertJob_spec hinsert
          exact ⟨⟨_, htr.symm⟩, fun hs => hsd ▸ hs⟩
      | remove id value deleteFiles hvalue hactive =>
          simp only [ltkitSessionRemove, hvalue, hactive, Bool.false_eq_true, if_false]
          split
          · exact ⟨List.prefix_refl _, fun h => h⟩
          · exact ⟨List.prefix_append _ _, fun h => h⟩

theorem micros_grow {s s' : Session} (h : Relation.ReflTransGen Micro s s') : Grows s s' := by
  induction h with
  | refl => exact Grows.refl s
  | tail _ hm ih => exact ih.trans hm.grows

/-- The trace of the session only grows. -/
theorem step_grows {w w' : World} {l : Step} (hc : w.Callers) (h : w.step l = some w') :
    Grows w.session w'.session :=
  micros_grow (step_micro hc h)

theorem Micro.slots {s s' : Session} (h : Micro s s') (hs : s.Slots) : s'.Slots := by
  cases h with
  | called c api => exact hs
  | returned c api response => exact hs
  | destroy => exact hs
  | alert env alert hrunning hh => exact handleAlert_slots hh hs
  | move h => exact h.slots hs
  | life h => exact h.slots hs

/-- The invariant rule for the session. `Assumed` is what is assumed of the whole run: it
    speaks of its last state, and holds of the earlier ones, too. -/
theorem run_invariant (Assumed Inv : Session → Prop)
    (hassumed : ∀ {s s'}, Grows s s' → Assumed s' → Assumed s) (h0 : Inv {})
    (hmicro : ∀ {s s'}, Inv s → s.Slots → Assumed s' → Micro s s' → Inv s') {ls : List Step}
    {w : World} (hrun : Lts.exec step {} ls = some w) (hw : Assumed w.session) :
    Inv w.session := by
  have hchain : ∀ {s s'}, Relation.ReflTransGen Micro s s' → s.Slots → Inv s → Assumed s' →
      Inv s' ∧ s'.Slots := by
    intro s s' h hs hi
    induction h with
    | refl => exact fun _ => ⟨hi, hs⟩
    | tail _ hm ih =>
        intro ha
        obtain ⟨hi', hs'⟩ := ih (hassumed hm.grows ha)
        exact ⟨hmicro hi' hs' ha hm, hm.slots hs'⟩
  induction ls using List.reverseRecOn generalizing w with
  | nil =>
      obtain rfl := Option.some.inj hrun
      exact h0
  | append_singleton ls l ih =>
      obtain ⟨v, hv, hvw⟩ := Lts.exec_snoc_eq_some.mp hrun
      obtain ⟨hslots, hcallers⟩ := run_callers hv
      have hm := step_micro hcallers hvw
      exact (hchain hm hslots (ih hv (hassumed (micros_grow hm) hw)) hw).1

/-! ## Completions that wait -/

/-- A completion waits or is under way. -/
def completing (value : Job) : Prop :=
  value.completionWaiting = true ∨ value.completionCheckpoint = true

theorem startWaitingCompletion_completing {value : Job} (h : completing value) :
    completing (startWaitingCompletion value).1 := by
  rcases startWaitingCompletion_cases value with ⟨heq, _⟩ | ⟨_, _, _, heq⟩ <;> rw [heq]
  · exact h
  · exact Or.inr rfl

/-- A call neither forgets a completion that waits nor ends one that is under way. -/
theorem work_completing {slot closing : Prop} {env : Environment} {value : Job}
    {worked : Job × List Action} (h : Work slot closing env value worked) (hc : completing value) :
    completing worked.1 := by
  cases h with
  | select hselects htuning =>
      obtain ⟨h1, h2, _⟩ := hselects.sameSlot
      unfold completing
      rwa [h1, h2]
  | reject => exact hc
  | begin hslot flush =>
      rw [beginCheckpoint_eq]
      exact hc
  | abandon hslot hactive =>
      unfold abandonCheckpoint
      split
      · exact startWaitingCompletion_completing hc
      · exact hc
  | finish hslot hactive => exact startWaitingCompletion_completing hc

/-- An alert does not forget a completion that waits. -/
theorem alert_completing {env : Environment} {id : String} {value : Job} {alert : Alert}
    {worked : Job × List Action} (h : AlertEnd env id value alert worked) (hok : value.SlotOk)
    (hw : value.completionWaiting = true) : completing worked.1 := by
  have hfinish : ∀ {phase data success} (worked : Job × List Action),
      FinishEnd env id (value.withReply phase data) success worked → completing worked.1 := by
    intro phase data success worked hend
    cases hend with
    | completion hcompletion _ => exact absurd ⟨hw, hcompletion⟩ hok.exclusive
    | answered _ _ => exact Or.inl hw
    | drained _ _ => exact startWaitingCompletion_completing (Or.inl hw)
  cases h with
  | metadata hkind hselects htuning => exact Or.inl (hselects.sameSlot.2.1.trans hw)
  | rejected hkind hselects htuning => exact Or.inl (hselects.sameSlot.2.1.trans hw)
  | completing hkind hcompletes hworked =>
      subst hworked
      exact startWaitingCompletion_completing (Or.inl rfl)
  | @saved request data hkind hphase worked hend => exact hfinish worked hend
  | @saveFailed request hkind hphase worked hend => exact hfinish worked hend
  | flushed | errorNoted | errorReported | status | ignored => exact Or.inl hw

/-- Nothing that a call does before it returns ends a completion or removes its job. -/
theorem moves_completing {slot : String → Prop} {s s' : Session} (h : Moves slot s s') {id : String}
    {value : Job} (hvalue : s.jobs.lookup id = some value) (hc : completing value) :
    ∃ value', s'.jobs.lookup id = some value' ∧ completing value' := by
  induction h with
  | refl => exact ⟨value, hvalue, hc⟩
  | tail _ hmove ih =>
      obtain ⟨v, hv, hcv⟩ := ih
      cases hmove with
      | error e => exact ⟨v, hv, hcv⟩
      | wake => exact ⟨v, hv, hcv⟩
      | read env json hfront hpop => exact ⟨v, (popEvent_jobs hpop).symm ▸ hv, hcv⟩
      | @work _ env i u worked hu hwork hupdate =>
          obtain ⟨new, hupd⟩ := update_spec hupdate
          rw [hupd.jobs]
          by_cases hi : id = i
          · subst hi
            obtain rfl := Option.some.inj (hv.symm.trans hu)
            exact ⟨worked.1, Finmap.lookup_insert _, work_completing hwork hcv⟩
          · exact ⟨v, (Finmap.lookup_insert_of_ne _ hi).trans hv, hcv⟩

theorem life_jobs {s s' : Session} (h : Life s s') {id : String} {value value' : Job}
    (hvalue : s.jobs.lookup id = some value) (hvalue' : s'.jobs.lookup id = some value') :
    value' = value := by
  cases h with
  | insert env r params desired handle hrunning hfree hcan hadd hinsert =>
      have hi : id ≠ r.identifier := by
        rintro rfl
        rw [Finmap.lookup_eq_none.mpr hfree] at hvalue
        cases hvalue
      rw [(insertJob_spec hinsert).1, Finmap.lookup_insert_of_ne _ hi, hvalue] at hvalue'
      exact (Option.some.inj hvalue').symm
  | remove i v deleteFiles hv hactive =>
      rw [remove_jobs hv hactive] at hvalue'
      by_cases hi : id = i
      · subst hi
        simp at hvalue'
      · rw [Finmap.lookup_erase_ne hi, hvalue] at hvalue'
        exact (Option.some.inj hvalue').symm

/-- A completion that waits is still waiting, or under way, after every critical section
    that leaves its job in the session. -/
theorem step_completing {w w' : World} {l : Step} (hs : w.session.Slots) (hc : w.Callers)
    (h : w.step l = some w') {id : String} {value value' : Job}
    (hvalue : w.session.jobs.lookup id = some value)
    (hvalue' : w'.session.jobs.lookup id = some value')
    (hw : value.completionWaiting = true) : completing value' := by
  have hmoves : ∀ {s}, Moves (fun _ => True) w.session s → s.jobs = w'.session.jobs →
      completing value' := by
    intro s hm hj
    obtain ⟨v, hv, hcv⟩ := moves_completing hm hvalue (Or.inl hw)
    rw [hj, hvalue'] at hv
    exact Option.some.inj hv ▸ hcv
  cases l with
  | alert env alert =>
      simp only [step, Option.ite_none_left_eq_some, Option.map_eq_some_iff] at h
      obtain ⟨_, s, hh, rfl⟩ := h
      rcases handleAlert_cases hh with rfl | ⟨i, v, hv, _, _, hupdate⟩
      · exact Option.some.inj (hvalue.symm.trans hvalue') ▸ Or.inl hw
      · obtain ⟨new, hu⟩ := update_spec hupdate
        by_cases hi : id = i
        · subst hi
          obtain rfl := Option.some.inj (hvalue.symm.trans hv)
          rw [hu.jobs, Finmap.lookup_insert] at hvalue'
          exact Option.some.inj hvalue' ▸
            alert_completing (onAlert_end env id value alert) (hs _ _ hvalue) hw
        · rw [hu.jobs, Finmap.lookup_insert_of_ne _ hi] at hvalue'
          exact Option.some.inj (hvalue.symm.trans hvalue') ▸ Or.inl hw
  | destroy =>
      obtain rfl := Option.some.inj h
      exact Option.some.inj (hvalue.symm.trans hvalue') ▸ Or.inl hw
  | call env c api =>
      simp only [step, Option.ite_none_left_eq_some, Option.map_eq_some_iff] at h
      obtain ⟨_, res, hres, rfl⟩ := h
      have hjobs : res.1.jobs.lookup id = some value' := by
        cases hr : res.2 with
        | some response => simpa [hr, returned] using hvalue'
        | none => simpa [hr, returned] using hvalue'
      rcases enter_moves (fun _ => True) (fun _ _ => trivial) hres with hm | hm
      · obtain ⟨v, hv, hcv⟩ := moves_completing hm hvalue (Or.inl hw)
        exact Option.some.inj (hv.symm.trans hjobs) ▸ hcv
      · exact life_jobs hm hvalue hjobs ▸ Or.inl hw
  | resume env c =>
      obtain ⟨wait, res, hwait, hres, rfl⟩ := step_resume h
      exact hmoves (hc.resumed hwait hres) rfl

/-- **A finished torrent's completion is never forgotten and never shares the slot.** After
    every run, for every job: a completion that waits finds the slot occupied, one under way
    has its barrier pending, it is never both, no caller owns the slot of one under way, a
    caller's result is there only while the caller owns the slot, and a caller owns the slot
    only while its call waits. The next critical section, whatever it is, leaves a waiting
    completion waiting or starts it. -/
theorem completion_never_forgotten {ls : List Step} {w : World}
    (hrun : Lts.exec step {} ls = some w) {id : String} {value : Job}
    (hvalue : w.session.jobs.lookup id = some value) :
    (value.completionWaiting = true →
      value.checkpoint.active = true ∨ value.checkpoint.barrier.phase ≠ .idle) ∧
    (value.completionCheckpoint = true → value.checkpoint.barrier.pending = true) ∧
    ¬ (value.completionWaiting = true ∧ value.completionCheckpoint = true) ∧
    ¬ (value.checkpoint.active = true ∧ value.completionCheckpoint = true) ∧
    (value.checkpoint.done = true → value.checkpoint.active = true ∧
      (value.checkpoint.barrier.phase = .succeeded ∨ value.checkpoint.barrier.phase = .failed)) ∧
    (value.checkpoint.active = true → ∃ c, w.InCheckpoint c id) ∧
    (value.completionWaiting = true → ∀ l w' value', w.step l = some w' →
      w'.session.jobs.lookup id = some value' →
        value'.completionWaiting = true ∨ value'.completionCheckpoint = true) := by
  obtain ⟨hs, hc⟩ := run_callers hrun
  have hok := hs id value hvalue
  refine ⟨hok.waiting, hok.completion, hok.exclusive, hok.owner, hok.done, fun ha => ?_,
    fun hw l w' value' hstep hvalue' => step_completing hs hc hstep hvalue hvalue' hw⟩
  exact (hc.active id).mp ((activeAt_eq hvalue).trans ha)

/-- A torrent finishes while a caller waits for its checkpoint. -/
def waitingRun : List Step :=
  [.call sampleEnvironment 0 (.add sampleRequest),
    .call sampleEnvironment 1 (.checkpoint "a" true 1000),
    .alert sampleEnvironment ⟨1, .torrentFinished⟩]

theorem completion_waits_behind_caller :
    ∃ value, (after waitingRun).session.jobs.lookup "a" = some value ∧
      value.completionWaiting = true ∧ value.completionCheckpoint = false ∧
      ∃ c, (after waitingRun).InCheckpoint c "a" := by
  have hlookup : ((after waitingRun).session.jobs.lookup "a").any (fun value =>
      value.completionWaiting && value.checkpoint.active) = true := by decide +kernel
  obtain ⟨value, hvalue, hflags⟩ := (Option.any_eq_true _ _).mp hlookup
  rw [Bool.and_eq_true] at hflags
  obtain ⟨_, _, hexclusive, _, _, hcaller, _⟩ :=
    completion_never_forgotten (exec_after (by decide +kernel)) hvalue
  refine ⟨value, hvalue, hflags.1, ?_, hcaller hflags.2⟩
  by_contra hc
  exact hexclusive ⟨hflags.1, by simpa using hc⟩

end World

end LibtorrentKit
