/-
  `ltkit_session_checkpoint` when something throws.

  The call takes the slot of its job before it asks libtorrent for anything, and gives it up at
  its end. An exception in between leaves the function without giving up the slot, and an
  exception from the completion that it starts at its end leaves a barrier behind to which no
  reply will come. `CheckpointPoint` names the operations that may throw.

  `checkpointGuarded_none` and `checkpointResumed_none` are the link to `Session.Api`: when nothing
  throws, the two sections of the call are those of `Session.enter` and `Session.resume`.

  `GuardedStep` are the critical sections, with those of a checkpoint call that throws.
  `checkpoint_released`: when no exception strikes a call that has taken the slot, or the
  completion that it starts, the slot is free when the call has returned.
-/
import LibtorrentKit.Session.Admission
import LibtorrentKit.Session.Replies

namespace LibtorrentKit

open History Session Throw

/-- The operations of `ltkit_session_checkpoint` that may throw, in their order. -/
inductive CheckpointPoint where
  /-- The first `find_job`, which builds the key. -/
  | find
  /-- `flush_cache` or `save_resume_data` of the call's own request. -/
  | request
  /-- `find_job` in the predicate of the wait, at any of its evaluations. -/
  | predicate
  /-- `find_job` after the wait. -/
  | findAgain
  /-- `flush_cache` of the completion that waited for the slot. -/
  | completion
  /-- The text that `fail` stores. -/
  | failText
  deriving DecidableEq, Repr

/-- An exception here finds the slot as it was before the call, or given up. -/
def CheckpointPoint.harmless : CheckpointPoint → Bool
  | .find => true
  | .failText => true
  | _ => false

namespace Session

section

variable (fault : Option (CheckpointPoint × Thrown))

/-- `copy_buffer`, and `fail` when it does not succeed. -/
def copyOut (env : Environment) (data : Bytes) : Prog Session Thrown Response :=
  if copyBuffer env data.isEmpty then pure { code := .ok, output := .bytes data }
  else failing fault .failText .allocationLimit "The checkpoint response could not be allocated."

/-- The job is changed first; a request to libtorrent, if there is one, comes after that. -/
def updateThen (here : CheckpointPoint) (env : Environment) (id : String)
    (worked : Job × List Action) : Prog Session Thrown Unit := do
  edit (·.setJob id worked.1)
  if worked.2.isEmpty then pure ()
  else do
    reach fault here
    attempt fun s => s.performAll env id worked.2

/-- `ltkit_session_checkpoint` after its wait. -/
def checkpointEnd (env : Environment) (id : String) (generation : Nat) :
    Prog Session Thrown Response := do
  reach fault .findAgain
  let s ← get
  let completed := s.checkpointWoken id generation
  let interrupted := decide (s.wakeGeneration ≠ generation)
  let safeMessage :=
    if interrupted then "The checkpoint request was cancelled."
    else "The checkpoint request timed out."
  match s.jobs.lookup id with
  | none => failing fault .failText .timedOut safeMessage
  | some value =>
      if !completed || interrupted then do
        updateThen fault .completion env id (abandonCheckpoint value)
        failing fault .failText .timedOut safeMessage
      else do
        updateThen fault .completion env id (startWaitingCompletion { value with checkpoint := {} })
        if value.checkpoint.error ≠ .ok then
          failing fault .failText value.checkpoint.error "The checkpoint request failed."
        else copyOut fault env value.checkpoint.data

/-- The part of `ltkit_session_checkpoint` that takes the slot. -/
def checkpointRequest (env : Environment) (id : String) (flush : Bool) (value : Job) :
    Prog Session Thrown (Option Response) := do
  updateThen fault .request env id (beginCheckpoint value flush)
  reach fault .predicate
  let s ← get
  if s.checkpointWoken id s.wakeGeneration then
    some <$> checkpointEnd fault env id s.wakeGeneration
  else pure none

/-- The function that `ltkit_session_checkpoint` hands to `guarded`, up to its wait. -/
def checkpointBody (env : Environment) (id : String) (flush : Bool) :
    Prog Session Thrown (Option Response) := do
  reach fault .find
  let s ← get
  match s.jobs.lookup id with
  | none =>
      some <$> failing fault .failText .invalidIdentifier "The torrent identifier is not active."
  | some value =>
      if value.stopped && decide (value.finalResumeData ≠ []) then
        if flush && !syncSelectedPayloads env.disk value.finalPayloads then
          some <$> failing fault .failText .completionFailed
            "A selected torrent payload is missing or could not be flushed."
        else some <$> copyOut fault env value.finalResumeData
      else if value.stopped then
        some <$> failing fault .failText .invalidIdentifier "The torrent identifier is not active."
      else if value.checkpoint.active || !value.checkpoint.barrier.idle
          || value.completionCheckpoint then
        some <$> failing fault .failText .nativeFailure
          "A checkpoint is already pending for this torrent."
      else checkpointRequest fault env id flush value

/-- The rest of the call, from one evaluation of the predicate of its wait on. -/
def checkpointResumed (env : Environment) (id : String) (generation : Nat) :
    Prog Session Thrown Response := do
  reach fault .predicate
  checkpointEnd fault env id generation

end

/-- `ltkit_session_checkpoint` with its exceptions, up to its wait. -/
def checkpointGuarded (fault : Option (CheckpointPoint × Thrown)) (s : Session)
    (env : Environment) (id : String) (flush : Bool) (timeoutMs : Int) :
    Option (Option Response × Session) :=
  if timeoutMs ≤ 0 then some (some { code := .invalidArgument }, s)
  else guarded (fun e s => (some (caught e s).1, (caught e s).2))
    (checkpointBody fault env id flush) s

/-! ## Exceptions that do no harm -/

section

variable {fault : Option (CheckpointPoint × Thrown)} {α : Type} {s s' : Session}
  {env : Environment} {id : String}

/-- Nothing throws where it does harm. -/
def Harmless (fault : Option (CheckpointPoint × Thrown)) : Prop :=
  ∀ here, here.harmless = false → strike fault here = none

theorem harmless_none : Harmless none := fun _ _ => rfl

theorem harmless_some {f : CheckpointPoint × Thrown} (h : f.1.harmless = true) :
    Harmless (some f) := by
  intro here hhere
  cases hstrike : strike (some f) here with
  | none => rfl
  | some e =>
      obtain rfl := Option.some.inj (strike_eq_some.mp hstrike)
      rw [hhere] at h
      cases h

/-- How a function ends in which at most the text of `fail` throws: as the one in which nothing
    throws, or just before that one stores its text. `final` holds of what it returns then. -/
structure EndsNear (fault : Option (CheckpointPoint × Thrown)) (final : α → Prop)
    (p : Prog Session Thrown α) (s : Session) (plain : Option (Session × α)) : Prop where
  ends : ∀ res s', Ends p s res s' → (∃ a, res = .ok a ∧ plain = some (s', a)) ∨
    ∃ e m a, strike fault .failText = some e ∧ res = .error e ∧ plain = some (s'.setError m, a) ∧
      final a
  total : plain.isSome = true → ∃ res s', Ends p s res s'

/-- Without an exception the function is the one in which nothing throws. -/
theorem EndsNear.none {final : α → Prop} {p : Prog Session Thrown α}
    {plain : Option (Session × α)} (h : EndsNear none final p s plain) : EndsAs p s plain := by
  intro res s'
  constructor
  · intro hp
    rcases h.ends res s' hp with hok | ⟨e, _, _, hstrike, _⟩
    · exact hok
    · cases hstrike
  · rintro ⟨a, rfl, rfl⟩
    obtain ⟨res, t, hp⟩ := h.total rfl
    rcases h.ends res t hp with ⟨b, rfl, heq⟩ | ⟨e, _, _, hstrike, _⟩
    · obtain ⟨rfl, rfl⟩ := Prod.mk.inj (Option.some.inj heq)
      exact hp
    · cases hstrike

theorem endsNear_pure {final : α → Prop} (a : α) :
    EndsNear fault final (pure a) s (some (s, a)) where
  ends res s' h := by
    obtain ⟨rfl, rfl⟩ := ends_pure.mp h
    exact Or.inl ⟨a, rfl, rfl⟩
  total _ := ⟨_, _, ends_pure.mpr ⟨rfl, rfl⟩⟩

theorem endsNear_fail {final : Response → Prop} (hfinal : ∀ r, final r) (code : Code) (m : String) :
    EndsNear fault final (failing fault .failText code m) s (some (s.fail code m)) where
  ends res s' h := by
    rcases failing_ends h with ⟨rfl, rfl⟩ | ⟨e, he, rfl, rfl⟩
    · exact Or.inl ⟨_, rfl, rfl⟩
    · exact Or.inr ⟨e, m, _, he, rfl, rfl, hfinal _⟩
  total _ := by
    unfold failing
    cases hstrike : strike fault .failText with
    | none =>
        refine ⟨.ok { code }, s.setError m, ends_reach_bind.mpr (Or.inl ⟨hstrike, ?_⟩)⟩
        exact ends_edit_bind.mpr (ends_pure.mpr ⟨rfl, rfl⟩)
    | some e => exact ⟨.error e, s, ends_reach_bind.mpr (Or.inr ⟨e, hstrike, rfl, rfl⟩)⟩

theorem endsNear_reach {final : α → Prop} {p : Unit → Prog Session Thrown α}
    {plain : Option (Session × α)} {here : CheckpointPoint} (hstrike : strike fault here = none)
    (h : EndsNear fault final (p ()) s plain) :
    EndsNear fault final (reach fault here >>= p) s plain where
  ends res s' hp := by
    rcases ends_reach_bind.mp hp with ⟨_, hp⟩ | ⟨e, he, _⟩
    · exact h.ends res s' hp
    · rw [hstrike] at he
      cases he
  total hplain := by
    obtain ⟨res, s', hp⟩ := h.total hplain
    exact ⟨res, s', ends_reach_bind.mpr (Or.inl ⟨hstrike, hp⟩)⟩

theorem endsNear_get {final : α → Prop} {p : Session → Prog Session Thrown α}
    {plain : Option (Session × α)} (h : EndsNear fault final (p s) s plain) :
    EndsNear fault final (get >>= p) s plain where
  ends res s' hp := h.ends res s' (ends_get_bind.mp hp)
  total hplain := by
    obtain ⟨res, s', hp⟩ := h.total hplain
    exact ⟨res, s', ends_get_bind.mpr hp⟩

/-- A function that returns in any case, as part of one that may have to wait. -/
theorem endsNear_returning {final : Response → Prop} {p : Prog Session Thrown Response}
    {plain : Option (Session × Response)} (h : EndsNear fault final p s plain) :
    EndsNear fault (fun r => r.isSome = true) (some <$> p) s (plain.map returning) where
  ends res s' hp := by
    rcases ends_map.mp hp with ⟨a, hq, rfl⟩ | ⟨e, hq, rfl⟩
    · rcases h.ends _ _ hq with ⟨b, hb, rfl⟩ | ⟨e, _, _, _, herror, _⟩
      · obtain rfl := Except.ok.inj hb
        exact Or.inl ⟨some a, rfl, rfl⟩
      · cases herror
    · rcases h.ends _ _ hq with ⟨b, hb, _⟩ | ⟨e', m, a, he, herror, rfl, _⟩
      · cases hb
      · obtain rfl := Except.error.inj herror
        exact Or.inr ⟨e, m, some a, he, rfl, rfl, rfl⟩
  total hplain := by
    rw [Option.isSome_map] at hplain
    obtain ⟨res, s', hp⟩ := h.total hplain
    cases res with
    | ok a => exact ⟨_, s', ends_map.mpr (Or.inl ⟨a, hp, rfl⟩)⟩
    | error e => exact ⟨_, s', ends_map.mpr (Or.inr ⟨e, hp, rfl⟩)⟩

/-- A change of the job is made as if nothing could throw. -/
theorem ends_updateThen {here : CheckpointPoint} (hstrike : strike fault here = none)
    {worked : Job × List Action} {res : Except Thrown Unit} :
    Ends (updateThen fault here env id worked) s res s' ↔
      res = .ok () ∧ s.update env id worked = some s' := by
  unfold updateThen update
  rw [ends_edit_bind]
  cases hactions : worked.2 with
  | nil =>
      rw [List.isEmpty_nil, if_pos rfl, ends_pure]
      show _ ↔ _ ∧ some (s.setJob id worked.1) = some s'
      rw [Option.some.injEq]
      exact and_congr_right fun _ => eq_comm
  | cons a actions =>
      have hsome : ¬ (a :: actions).isEmpty = true := by simp
      rw [if_neg hsome, ends_reach_bind, ends_attempt, hstrike]
      simp only [true_and, reduceCtorEq, false_and, exists_false, or_false]

theorem endsNear_update {final : α → Prop} {p : Unit → Prog Session Thrown α}
    {plain : Session → Option (Session × α)} {here : CheckpointPoint}
    (hstrike : strike fault here = none) {worked : Job × List Action}
    (h : ∀ t, EndsNear fault final (p ()) t (plain t)) :
    EndsNear fault final (updateThen fault here env id worked >>= p) s
      ((s.update env id worked).bind plain) where
  ends res s' hp := by
    rcases ends_bind.mp hp with ⟨a, t, hu, hp⟩ | ⟨e, hu, _⟩
    · rw [((ends_updateThen hstrike).mp hu).2]
      exact (h t).ends res s' hp
    · cases ((ends_updateThen hstrike).mp hu).1
  total hplain := by
    obtain ⟨r, hr⟩ := Option.isSome_iff_exists.mp hplain
    obtain ⟨t, ht, hr⟩ := Option.bind_eq_some_iff.mp hr
    obtain ⟨res, s', hp⟩ := (h t).total (Option.isSome_iff_exists.mpr ⟨r, hr⟩)
    exact ⟨res, s', ends_bind.mpr
      (Or.inl ⟨(), t, (ends_updateThen hstrike).mpr ⟨rfl, ht⟩, hp⟩)⟩

theorem endsNear_copyOut {final : Response → Prop} (hfinal : ∀ r, final r) (data : Bytes) :
    EndsNear fault final (copyOut fault env data) s
      (some (s.reply env "The checkpoint response could not be allocated."
        (.ok (.bytes data)))) := by
  unfold copyOut reply
  show EndsNear _ _ _ _ (some (if copyBuffer env data.isEmpty = true then _ else _))
  split
  · exact endsNear_pure _
  · exact endsNear_fail hfinal _ _

theorem checkpointEnd_near {final : Response → Prop} (hfinal : ∀ r, final r)
    (hfault : Harmless fault) (generation : Nat) :
    EndsNear fault final (checkpointEnd fault env id generation) s
      (s.resumeCheckpoint env id generation) := by
  unfold checkpointEnd resumeCheckpoint
  refine endsNear_reach (hfault _ rfl) (endsNear_get ?_)
  dsimp only
  cases s.jobs.lookup id with
  | none => exact endsNear_fail hfinal _ _
  | some value =>
      dsimp only
      split
      · rw [Option.map_eq_bind]
        exact endsNear_update (hfault _ rfl) fun t => endsNear_fail hfinal _ _
      · rw [Option.map_eq_bind]
        refine endsNear_update (hfault _ rfl) fun t => ?_
        by_cases herror : value.checkpoint.error ≠ .ok
        · rw [if_pos herror, Function.comp_apply, if_pos herror]
          exact endsNear_fail hfinal _ _
        · rw [if_neg herror, Function.comp_apply, if_neg herror]
          exact endsNear_copyOut hfinal _

/-- A call that takes the slot, up to its wait. -/
theorem checkpointRequest_near (hfault : Harmless fault) (flush : Bool) (value : Job) :
    EndsNear fault (fun r => r.isSome = true) (checkpointRequest fault env id flush value) s
      ((s.update env id (beginCheckpoint value flush)).bind fun s =>
        if s.checkpointWoken id s.wakeGeneration then
          (s.resumeCheckpoint env id s.wakeGeneration).map returning
        else some (s, none)) := by
  unfold checkpointRequest
  refine endsNear_update (hfault _ rfl) fun t => ?_
  refine endsNear_reach (hfault _ rfl) (endsNear_get ?_)
  split
  · exact endsNear_returning (checkpointEnd_near (fun _ => trivial) hfault _)
  · exact endsNear_pure _

/-- Up to its wait, the call ends as the one without exceptions, but for the text of `fail`. -/
theorem checkpointBody_near (hfault : Harmless fault) (hfind : strike fault .find = none)
    (flush : Bool) {timeoutMs : Int} (htimeout : ¬ timeoutMs ≤ 0) :
    EndsNear fault (fun r => r.isSome = true) (checkpointBody fault env id flush) s
      (s.ltkitSessionCheckpoint env id flush timeoutMs) := by
  have hfail : ∀ code m, EndsNear fault (fun r => r.isSome = true)
      (some <$> failing fault .failText code m) s (some (returning (s.fail code m))) :=
    fun code m => endsNear_returning (endsNear_fail (fun _ => trivial) code m)
  unfold checkpointBody ltkitSessionCheckpoint
  rw [if_neg htimeout]
  refine endsNear_reach hfind (endsNear_get ?_)
  cases s.jobs.lookup id with
  | none => exact hfail _ _
  | some value =>
      dsimp only
      split
      · split
        · exact hfail _ _
        · exact endsNear_returning (endsNear_copyOut (fun _ => trivial) _)
      · split
        · exact hfail _ _
        · split
          · exact hfail _ _
          · exact checkpointRequest_near hfault flush value

theorem checkpointResumed_near (hfault : Harmless fault) (generation : Nat) :
    EndsNear fault (fun _ => True) (checkpointResumed fault env id generation) s
      (s.resumeCheckpoint env id generation) := by
  unfold checkpointResumed
  exact endsNear_reach (hfault _ rfl) (checkpointEnd_near (fun _ => trivial) hfault _)

/-- When nothing throws, the call is the one without exceptions. -/
theorem checkpointGuarded_none (s : Session) (env : Environment) (id : String) (flush : Bool)
    (timeoutMs : Int) :
    checkpointGuarded none s env id flush timeoutMs =
      (s.ltkitSessionCheckpoint env id flush timeoutMs).map Prod.swap := by
  unfold checkpointGuarded
  split
  · next htimeout => simp [ltkitSessionCheckpoint, htimeout]
  · next htimeout => exact guarded_none (checkpointBody_near harmless_none rfl flush htimeout).none

theorem checkpointResumed_none (s : Session) (env : Environment) (id : String) (generation : Nat) :
    guarded caught (checkpointResumed none env id generation) s =
      (s.resumeCheckpoint env id generation).map Prod.swap :=
  guarded_none (checkpointResumed_near harmless_none generation).none

/-- What the handler gets to see is the call without exceptions, up to the last error. -/
theorem EndsNear.guarded_cases {handler : Thrown → Session → α × Session}
    {fault : Option (CheckpointPoint × Thrown)} {final : α → Prop} {p : Prog Session Thrown α}
    {plain : Option (Session × α)} {a : α} (hnear : EndsNear fault final p s plain)
    (h : guarded handler p s = some (a, s')) :
    plain = some (s', a) ∨ ∃ e t m b, handler e t = (a, s') ∧ plain = some (t.setError m, b) ∧
      final b := by
  rcases guarded_eq_some.mp h with hok | ⟨e, t, hthrown, hcaught⟩
  · rcases hnear.ends _ _ hok with ⟨b, hb, hplain⟩ | ⟨_, _, _, _, herror, _⟩
    · obtain rfl := Except.ok.inj hb
      exact Or.inl hplain
    · cases herror
  · rcases hnear.ends _ _ hthrown with ⟨_, hb, _⟩ | ⟨_, m, b, _, _, hplain, hfinal⟩
    · cases hb
    · exact Or.inr ⟨e, t, m, b, hcaught, hplain, hfinal⟩

/-- An exception that does no harm ends the call before it has begun, or where the call without
    exceptions has just ended. Only the last error differs then. -/
theorem checkpointGuarded_harmless {f : CheckpointPoint × Thrown} {flush : Bool} {timeoutMs : Int}
    {r : Option Response} (hf : f.1.harmless = true)
    (h : checkpointGuarded (some f) s env id flush timeoutMs = some (r, s')) :
    s.ltkitSessionCheckpoint env id flush timeoutMs = some (s', r) ∨
      ∃ response m, r = some response ∧ (s' = s.setError m ∨
        ∃ t a, s.ltkitSessionCheckpoint env id flush timeoutMs = some (t, some a) ∧
          s' = t.setError m) := by
  unfold checkpointGuarded at h
  split at h
  · next htimeout =>
      obtain ⟨rfl, rfl⟩ := Prod.mk.inj (Option.some.inj h)
      exact Or.inl (by rw [ltkitSessionCheckpoint, if_pos htimeout])
  · next htimeout =>
      cases hfind : strike (some f) CheckpointPoint.find with
      | some e =>
          have hfirst : ∀ res t, Ends (checkpointBody (some f) env id flush) s res t →
              t = s ∧ res = .error e := by
            intro res t hp
            rcases ends_reach_bind.mp hp with ⟨hnone, _⟩ | ⟨e', he, hst, hres⟩
            · rw [hfind] at hnone
              cases hnone
            · obtain rfl := Option.some.inj (hfind.symm.trans he)
              exact ⟨hst, hres⟩
          rcases guarded_eq_some.mp h with hok | ⟨e', t, hthrown, hcaught⟩
          · cases (hfirst _ _ hok).2
          · obtain ⟨code, m, _, hm⟩ := caught_eq e' t
            rw [hm] at hcaught
            obtain ⟨rfl, rfl⟩ := Prod.mk.inj hcaught
            exact Or.inr ⟨_, m, rfl, Or.inl (by rw [(hfirst _ _ hthrown).1])⟩
      | none =>
          have hnear : EndsNear (some f) (fun r => r.isSome = true)
              (checkpointBody (some f) env id flush) s
              (s.ltkitSessionCheckpoint env id flush timeoutMs) :=
            checkpointBody_near (harmless_some hf) hfind flush htimeout
          rcases hnear.guarded_cases h with hplain | ⟨e, t, m', a, hcaught, hplain, hfinal⟩
          · exact Or.inl hplain
          · obtain ⟨code, m, _, hm⟩ := caught_eq e t
            rw [hm] at hcaught
            obtain ⟨rfl, rfl⟩ := Prod.mk.inj hcaught
            obtain ⟨response, rfl⟩ := Option.isSome_iff_exists.mp hfinal
            exact Or.inr ⟨_, m, rfl, Or.inr ⟨_, response, hplain, rfl⟩⟩

theorem checkpointResumed_harmless {f : CheckpointPoint × Thrown} {generation : Nat}
    {r : Response} (hf : f.1.harmless = true)
    (h : guarded caught (checkpointResumed (some f) env id generation) s = some (r, s')) :
    s.resumeCheckpoint env id generation = some (s', r) ∨
      ∃ t a m, s.resumeCheckpoint env id generation = some (t, a) ∧ s' = t.setError m := by
  have hnear : EndsNear (some f) (fun _ => True) (checkpointResumed (some f) env id generation) s
      (s.resumeCheckpoint env id generation) :=
    checkpointResumed_near (harmless_some hf) generation
  rcases hnear.guarded_cases h with hplain | ⟨e, t, m', a, hcaught, hplain, _⟩
  · exact Or.inl hplain
  · obtain ⟨code, m, _, hm⟩ := caught_eq e t
    rw [hm] at hcaught
    obtain ⟨rfl, rfl⟩ := Prod.mk.inj hcaught
    exact Or.inr ⟨_, a, m, hplain, rfl⟩

end

end Session

/-- One critical section. -/
inductive GuardedStep where
  /-- A critical section in which nothing throws. -/
  | plain (l : Step)
  /-- Thread `c` makes a checkpoint call in which `fault` strikes if it is reached. -/
  | checkpoint (env : Environment) (c : CallId) (id : String) (flush : Bool) (timeoutMs : Int)
      (fault : CheckpointPoint × Thrown)
  /-- The checkpoint call of thread `c` evaluates the predicate of its wait and goes on, and
      `fault` strikes if it is reached. -/
  | resumed (env : Environment) (c : CallId) (fault : CheckpointPoint × Thrown)

/-- No exception is thrown after the call has taken the slot and before it has given it up. -/
def GuardedStep.harmless : GuardedStep → Bool
  | .plain _ => true
  | .checkpoint _ _ _ _ _ fault => fault.1.harmless
  | .resumed _ _ fault => fault.1.harmless

namespace World

/-- One critical section; `none` when it cannot happen now. -/
def guardedStep (w : World) : GuardedStep → Option World
  | .plain l => w.step l
  | .checkpoint env c id flush timeoutMs fault =>
      let api := Api.checkpoint id flush timeoutMs
      if (w.calls c).isSome || !w.session.iteratedBy env then none
      else
        ((w.session.record (.called c api)).checkpointGuarded (some fault) env id flush
            timeoutMs).map fun r =>
          match r.1 with
          | some response => w.returned c api (r.2, response)
          | none =>
              { session := r.2
                calls := Function.update w.calls c (some ⟨api, r.2.wakeGeneration⟩) }
  | .resumed env c fault =>
      match w.calls c with
      | some ⟨.checkpoint id flush timeoutMs, generation⟩ =>
          if !w.session.iteratedBy env then none
          else
            (guarded caught (checkpointResumed (some fault) env id generation) w.session).map
              fun r => w.returned c (.checkpoint id flush timeoutMs) r.swap
      | _ => none

/-! ## Runs -/

/-- A request on the handle `h` is out, and `id` has accepted no reply since. -/
def AwaitsReply (log : List Entry) (id : String) (h : Handle) : Prop :=
  ∃ q e, At log q e ∧ IsRequestOn h e ∧ NoneAfter (IsAccepted id) log q

/-- No caller has the slot of `id`, and it is idle unless a request is out. -/
def SlotFree (s : Session) (id : String) : Prop :=
  ∀ value, s.jobs.lookup id = some value → value.checkpoint.active = false ∧
    (value.checkpoint.barrier.idle = true ∨ AwaitsReply s.trace id value.handle)

/-- A torrent whose slot is free can be removed. -/
theorem SlotFree.remove {s : Session} {id : String} (h : SlotFree s id) (deleteFiles : Bool) :
    (s.ltkitSessionRemove id deleteFiles).2.code = .ok := by
  unfold ltkitSessionRemove
  split
  · rfl
  · next value hvalue =>
      rw [if_neg (by rw [(h value hvalue).1]; exact Bool.false_ne_true)]

/-- What harmless runs keep. -/
structure Safe (w : World) : Prop where
  slots : w.session.Slots
  callers : w.Callers
  rounds : Rounds False w.session

theorem Safe.init : Safe {} := by
  have hrun : Lts.exec step {} [] = some {} := rfl
  exact ⟨(run_callers hrun).1, (run_callers hrun).2, .init⟩

theorem micros_safe {s s' : Session} (h : Relation.ReflTransGen Micro s s') (hs : s.Slots)
    (hr : Rounds False s) : s'.Slots ∧ Rounds False s' := by
  induction h with
  | refl => exact ⟨hs, hr⟩
  | tail _ hm ih => exact ⟨hm.slots ih.1, ih.2.micro ih.1 hm False.elim⟩

/-- A harmless step is made of the steps that critical sections are made of, and leaves jobs and
    calls as a step without exceptions does, or as they were. -/
theorem guardedStep_near {w w' : World} {l : GuardedStep} (hc : w.Callers)
    (hl : l.harmless = true) (h : w.guardedStep l = some w') :
    Relation.ReflTransGen Micro w.session w'.session ∧
      ∃ v : World, v.calls = w'.calls ∧ v.session.jobs = w'.session.jobs ∧
        (v = w ∨ ∃ l, w.step l = some v) := by
  cases l with
  | plain l => exact ⟨step_micro hc h, w', rfl, rfl, Or.inr ⟨l, h⟩⟩
  | checkpoint env c id flush timeoutMs fault =>
      simp only [guardedStep, Option.ite_none_left_eq_some, Option.map_eq_some_iff] at h
      obtain ⟨hfree, ⟨r, t⟩, hguarded, rfl⟩ := h
      have hcalls : w.calls c = none := by
        simp only [Bool.or_eq_true, not_or, Bool.not_eq_true, Option.isSome_eq_false_iff,
          Option.isNone_iff_eq_none] at hfree
        exact hfree.1
      have henter : ∀ {u a}, (w.session.record (.called c (.checkpoint id flush timeoutMs))
          ).ltkitSessionCheckpoint env id flush timeoutMs = some (u, a) →
          w.step (.call env c (.checkpoint id flush timeoutMs)) = some (match a with
            | some response => w.returned c (.checkpoint id flush timeoutMs) (u, response)
            | none =>
                { session := u
                  calls := Function.update w.calls c
                    (some ⟨.checkpoint id flush timeoutMs, u.wakeGeneration⟩) }) := by
        intro u a hu
        simp only [step]
        rw [if_neg hfree]
        exact congrArg (Option.map _) hu
      rcases checkpointGuarded_harmless hl hguarded with hplain | ⟨response, m, rfl, rfl | hnear⟩
      · have hstep := henter hplain
        exact ⟨step_micro hc hstep, _, rfl, rfl, Or.inr ⟨_, hstep⟩⟩
      · refine ⟨?_, w, ?_, rfl, Or.inl rfl⟩
        · exact ((Relation.ReflTransGen.single (.called c _)).tail (.move (.error m))).tail
            (.returned c _ response)
        · exact (Function.update_eq_self_iff.mpr hcalls.symm).symm
      · obtain ⟨u, a, hplain, rfl⟩ := hnear
        refine ⟨?_, _, ?_, ?_, Or.inr ⟨_, henter hplain⟩⟩
        · have hmicro := @enter_micro _ _ _ (.checkpoint id flush timeoutMs) _ hplain
          exact (hmicro.tail (.move (.error m))).tail (.returned c _ response)
        · rfl
        · rfl
  | resumed env c fault =>
      simp only [guardedStep] at h
      split at h
      · next id flush timeoutMs generation hwait =>
          simp only [Option.ite_none_left_eq_some, Option.map_eq_some_iff] at h
          obtain ⟨hiterated, ⟨r, t⟩, hguarded, rfl⟩ := h
          have hresume : ∀ {u a}, w.session.resumeCheckpoint env id generation = some (u, a) →
              w.step (.resume env c) =
                some (w.returned c (.checkpoint id flush timeoutMs) (u, a)) := by
            intro u a hu
            simp only [step, hwait]
            rw [if_neg hiterated]
            exact congrArg (Option.map _) hu
          rcases checkpointResumed_harmless hl hguarded with hplain | ⟨u, a, m, hplain, rfl⟩
          · have hstep := hresume hplain
            exact ⟨step_micro hc hstep, _, rfl, rfl, Or.inr ⟨_, hstep⟩⟩
          · refine ⟨?_, _, ?_, ?_, Or.inr ⟨_, hresume hplain⟩⟩
            · exact ((resume_micro hc hwait hplain).tail (.move (.error m))).tail
                (.returned c _ r)
            · rfl
            · rfl
      · cases h

/-- Every harmless step keeps the slots tied to their callers, and the rounds in order. -/
theorem guardedStep_safe {w w' : World} {l : GuardedStep} (hw : w.Safe) (hl : l.harmless = true)
    (h : w.guardedStep l = some w') : w'.Safe := by
  obtain ⟨hmicro, v, hcalls, hjobs, hv⟩ := guardedStep_near hw.callers hl h
  obtain ⟨hslots, hrounds⟩ := micros_safe hmicro hw.slots hw.rounds
  have hvcallers : v.Callers := by
    rcases hv with rfl | ⟨l', hl'⟩
    · exact hw.callers
    · exact (step_callers hw.slots hw.callers hl').2
  refine ⟨hslots, hvcallers.same (activeAt_congr hjobs.symm) fun d i => ?_, hrounds⟩
  unfold InCheckpoint
  rw [hcalls]

theorem run_safe {ls : List GuardedStep} {w : World} (hrun : Lts.exec guardedStep {} ls = some w)
    (hharmless : ∀ l ∈ ls, l.harmless = true) : w.Safe := by
  have heach : Lts.EachStep guardedStep (fun _ l => l.harmless = true) {} ls :=
    fun pre l s hp _ => hharmless l (hp.subset (by simp))
  exact Lts.exec_invariant Safe.init
    (fun s l s' hs hl hstep => guardedStep_safe hs hl hstep) ls w heach hrun

/-- A slot without a caller is free: the phases of an answered request belong to callers. -/
theorem Safe.slotFree {w : World} (hw : w.Safe) {id : String}
    (hnone : ∀ c, ¬ w.InCheckpoint c id) : SlotFree w.session id := by
  intro value hvalue
  have hactive : value.checkpoint.active = false := by
    rw [← activeAt_eq hvalue, Bool.eq_false_iff]
    intro ha
    obtain ⟨c, hcid⟩ := (hw.callers.active id).mp ha
    exact hnone c hcid
  have hok := hw.slots id value hvalue
  have hround := hw.rounds.round id value hvalue
  have hdone : ¬ (value.checkpoint.barrier.phase = .succeeded ∨
      value.checkpoint.barrier.phase = .failed) := by
    intro hphase
    have := (hok.done (hok.settled hphase)).1
    rw [hactive] at this
    cases this
  refine ⟨hactive, ?_⟩
  cases hphase : value.checkpoint.barrier.phase with
  | idle => exact Or.inl (by simp [DiskCheckpoint.idle, hphase])
  | flushing =>
      obtain ⟨b, hb⟩ := RoundInv.flushing hround hphase
      exact Or.inr ⟨b + 1, _, hb.round.first, requestCommand_isRequest true value.handle,
        fun u e hu => hb.waiting u e (by omega)⟩
  | saving =>
      obtain ⟨_, _, q, hq⟩ := RoundInv.saving hround hphase
      exact Or.inr ⟨q, _, hq.issued.request, Or.inr rfl, hq.waiting⟩
  | succeeded => exact absurd (Or.inl hphase) hdone
  | failed => exact absurd (Or.inr hphase) hdone

/-- What a checkpoint call of thread `c` may leave of the slot of `id` when it has returned: the
    slot is free, or belongs to the call of another thread. -/
def Released (w : World) (c : CallId) (id : String) : Prop :=
  SlotFree w.session id ∨ ∃ d, d ≠ c ∧ w.InCheckpoint d id

/-- **Released slots.** In every state of a run in which no exception strikes a call that has
    the slot, and for every thread that is in no call, the slot of every torrent is released. -/
theorem checkpoint_released {ls : List GuardedStep} {w : World}
    (hrun : Lts.exec guardedStep {} ls = some w) (hharmless : ∀ l ∈ ls, l.harmless = true)
    {c : CallId} (hreturned : w.calls c = none) (id : String) : w.Released c id := by
  have hsafe := run_safe hrun hharmless
  by_cases hother : ∃ d, w.InCheckpoint d id
  · obtain ⟨d, hd⟩ := hother
    refine Or.inr ⟨d, ?_, hd⟩
    rintro rfl
    obtain ⟨wait, hwait, _⟩ := hd
    rw [hreturned] at hwait
    cases hwait
  · exact Or.inl (hsafe.slotFree fun d hd => hother ⟨d, hd⟩)

/-- The wait times out, and there is no memory for the text that says so: the slot is given up,
    and the flush is still out. -/
def timedOutRun : List GuardedStep :=
  [.plain (.call sampleEnvironment 0 (.add sampleRequest)),
    .plain (.call sampleEnvironment 1 (.checkpoint "a" true 1000)),
    .resumed sampleEnvironment 1 (.failText, .badAlloc)]

theorem timedOutRun_released :
    ∃ w, Lts.exec guardedStep {} timedOutRun = some w ∧ w.calls 1 = none ∧ w.Released 1 "a" := by
  have h : (Lts.exec guardedStep {} timedOutRun).map (fun w => (w.calls 1).isNone) =
      some true := by
    decide +kernel
  obtain ⟨w, hw, hcalls⟩ := Option.map_eq_some_iff.mp h
  have hnone : w.calls 1 = none := by simpa using hcalls
  exact ⟨w, hw, hnone, checkpoint_released hw (by decide) hnone "a"⟩

/-- `save_resume_data` throws in a call that has taken the slot. -/
def lockedRun : List GuardedStep :=
  [.plain (.call sampleEnvironment 0 (.add sampleRequest)),
    .checkpoint sampleEnvironment 1 "a" false 1000 (.request, .exception)]

/-- The call has returned, no thread waits in a checkpoint of the torrent, and it cannot be
    removed any more. -/
theorem lockedRun_locks :
    ∃ w, Lts.exec guardedStep {} lockedRun = some w ∧ w.calls 1 = none ∧ ¬ w.Released 1 "a" ∧
      (w.session.ltkitSessionRemove "a" false).2.code = .nativeFailure := by
  have hfirst : (Lts.exec guardedStep {} (lockedRun.take 1)).map
      (fun v => v.session.activeAt "a") = some false := by
    decide +kernel
  have hboth : (Lts.exec guardedStep {} lockedRun).map (fun w => (w.session.activeAt "a",
      (w.calls 1).isNone, (w.session.ltkitSessionRemove "a" false).2.code)) =
        some (true, true, .nativeFailure) := by
    decide +kernel
  obtain ⟨v, hv, hidle⟩ := Option.map_eq_some_iff.mp hfirst
  obtain ⟨w, hw, heq⟩ := Option.map_eq_some_iff.mp hboth
  simp only [Prod.mk.injEq, Option.isNone_iff_eq_none] at heq
  obtain ⟨hactive, hcalls, hremove⟩ := heq
  have hvcallers := (run_safe hv (by decide)).callers
  obtain ⟨v', hv', hstep⟩ := (@Lts.exec_snoc_eq_some _ _ _ _ _ (lockedRun.take 1) _).mp hw
  obtain rfl := Option.some.inj (hv.symm.trans hv')
  refine ⟨w, hw, hcalls, ?_, hremove⟩
  rintro (hfree | ⟨d, hd, wait, hwait, hck⟩)
  · cases hvalue : w.session.jobs.lookup "a" with
    | none => simp [Session.activeAt, hvalue] at hactive
    | some value =>
        rw [activeAt_eq hvalue, (hfree value hvalue).1] at hactive
        cases hactive
  · have hsame : w.calls d = v.calls d := by
      simp only [guardedStep, Option.ite_none_left_eq_some, Option.map_eq_some_iff] at hstep
      obtain ⟨_, r, _, rfl⟩ := hstep
      cases r.1 <;> exact Function.update_of_ne hd _ _
    have hin := (hvcallers.active "a").mpr ⟨d, wait, hsame.symm.trans hwait, hck⟩
    rw [hidle] at hin
    cases hin

end World

end LibtorrentKit
