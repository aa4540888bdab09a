/-
  The end of the handle.

  The native session is destroyed by `shutdown()`, or with the last reference to its handle. Inside
  the host the operations, the handlers, the closers, a shutdown and the `TorrentSession` refer to
  it, outside of it the stream of events: `AsyncStream` keeps the reader in its closures, also when
  it has ended, and the reader keeps the handle. So a consumer that does not let the stream go
  keeps the handle when everything else is at rest.

  The steps of `Step.isEnding` bring the end about. Proved: the handle can be deinitialised exactly
  when nobody refers to it (`Host.Live.deinit_iff`), and from every state it comes to that
  (`session_is_destroyed`).
-/
import LibtorrentKit.Swift.EventStream
import LibtorrentKit.Swift.Progress

namespace LibtorrentKit

/-! ## The host -/

namespace Host

variable {s s' : Host}

/-- At rest, nothing but the `TorrentSession` refers to the handle. -/
theorem AtRest.unreferenced (h : s.AtRest) :
    s.isReferenced = false ∧ s.isHandleReferenced = !s.released := by
  have hops : ∀ p : Op → Bool, (∀ x op, s.ops.lookup x = some op → p op = false) →
      ¬ ∃ x ∈ s.ops.keys, (s.ops.lookup x).any p = true := by
    rintro p hp ⟨x, -, hx⟩
    obtain ⟨op, hop, hpop⟩ := (Option.any_eq_true _ _).mp hx
    rw [hp x op hop] at hpop
    cases hpop
  constructor
  · have hnone := hops (fun op => decide (op.lane = .native) && !op.returned) fun x op hop => by
      simp [(h.ops x op hop).2.1]
    simp only [isReferenced, h.shutdown, Bool.not_true, Bool.false_or, decide_eq_false_iff_not]
    exact hnone
  · have hnone := hops (fun op => !op.returned || decide (op.handler = .waking)) fun x op hop => by
      simp [(h.ops x op hop).2.1, (h.ops x op hop).2.2]
    simp only [isHandleReferenced, h.shutdown, h.lock, h.closers, h.lanes, decide_eq_false hnone]
    simp

/-- When nobody refers to the handle, everything is at rest. -/
theorem Live.atRest (h : s.Live) (hreferenced : s.isHandleReferenced = false) :
    s.released = true ∧ s.AtRest := by
  simp only [isHandleReferenced, Bool.or_eq_false_iff, Bool.not_eq_eq_eq_not, Bool.not_false,
    Option.isSome_eq_false_iff, Option.isNone_iff_eq_none, decide_eq_false_iff_not, not_lt,
    Nat.le_zero, not_not] at hreferenced
  obtain ⟨⟨⟨⟨⟨⟨hreleased, hrests⟩, hlock⟩, hclosers⟩, hnative⟩, hevents⟩, hops⟩ := hreferenced
  have hempty : ∀ lane, (s.lanes lane).queue = [] := by
    rintro (_ | _)
    · exact hnative
    · exact hevents
  refine ⟨hreleased, fun x op hop => ?_, hempty, hlock, hclosers, hrests⟩
  have hkept : op.returned = true ∧ op.handler ≠ .waking := by
    by_contra hnot
    refine hops ⟨x, Finmap.mem_keys.mpr (Finmap.mem_of_lookup_eq_some hop), ?_⟩
    rw [hop, Option.any_some]
    cases hreturned : op.returned with
    | false => rfl
    | true => exact decide_eq_true (not_not.mp fun hne => hnot ⟨hreturned, hne⟩)
  refine ⟨(h.phase_of_empty hempty hop).resolve_left fun hsubmitted => ?_, hkept⟩
  have hok := h.sound.ops x op hop
  rcases hok.outcome_iff.mp (hok.returned hkept.1) with hp | hp <;>
    exact absurd (hp.symm.trans hsubmitted) (by simp)

/-- The handle can be deinitialised exactly when everything is at rest and the `TorrentSession` is
    released. -/
theorem Live.deinit_iff (h : s.Live) :
    (∃ t, s.step .deinit = some t) ↔ s.gone = false ∧ s.released = true ∧ s.AtRest := by
  constructor
  · rintro ⟨t, ht⟩
    simp only [step, Option.ite_none_left_eq_some, Bool.or_eq_true, not_or, Bool.not_eq_true] at ht
    exact ⟨ht.1.1, h.atRest ht.1.2⟩
  · rintro ⟨hgone, hreleased, hrest⟩
    simp only [step, hgone, hrest.unreferenced.2, hreleased, Bool.not_true, Bool.or_self,
      Bool.false_eq_true, if_false, deinit]
    split
    · exact ⟨_, rfl⟩
    · exact ⟨_, rfl⟩

theorem Live.destroyed (h : s.Live) (hgone : s.gone = true) : s.destroys = 1 := by
  rw [h.sound.safe.destroys, if_pos (h.gone hgone)]

/-- After the deinitialiser the host is as much at rest as before. -/
theorem AtRest.deinit (h : s.AtRest) (hstep : s.step .deinit = some s') :
    s'.AtRest ∧ s'.gone = true := by
  have hsame : s'.gone = true ∧ s'.ops = s.ops ∧ s'.lanes = s.lanes ∧ s'.lock = s.lock ∧
      s'.closers = s.closers ∧ s'.shutdown = s.shutdown := by
    cases step_end hstep with
    | deinit | deinitNothing => exact ⟨rfl, rfl, rfl, rfl, rfl, rfl⟩
  obtain ⟨hgone, hops, hlanes, hlock, hclosers, hshutdown⟩ := hsame
  refine ⟨⟨fun x op hop => h.ops x op (hops ▸ hop), fun lane => hlanes ▸ h.lanes lane,
    hlock.trans h.lock, hclosers.trans h.closers, ?_⟩, hgone⟩
  rw [shutdownRests, hshutdown]
  exact h.shutdown

/-- The host comes to rest with the `TorrentSession` released. -/
theorem Live.release (h : s.Live) :
    ∃ ls t, (∀ l ∈ ls, l.isOwn = true ∨ l = .release) ∧ Lts.exec step s ls = some t ∧ t.AtRest ∧
      t.released = true := by
  obtain ⟨own, t, hown, ht, hrest⟩ := h.settle
  cases hreleased : t.released with
  | true => exact ⟨own, t, fun l hl => Or.inl (hown l hl), ht, hrest, hreleased⟩
  | false =>
      have hstep : t.step .release = some ({ t with released := true }.close) := by
        simp only [step, hreleased, hrest.unreferenced.1, Bool.or_self, Bool.false_eq_true,
          if_false]
      obtain ⟨ls, u, hls, hrun, hrest'⟩ := (step_live (exec_live h ht) hstep).settle
      have hkept := Lts.exec_invariant' (fun v : Host => v.released = true) rfl
        (fun v l v' hv hstep => (step_released hstep).1 hv) ls u hrun
      refine ⟨own ++ .release :: ls, u, fun l hl => ?_, ?_, hrest', hkept⟩
      · rcases List.mem_append.mp hl with hl | hl
        · exact Or.inl (hown l hl)
        · rcases List.mem_cons.mp hl with rfl | hl
          · exact Or.inr rfl
          · exact Or.inl (hls l hl)
      · rw [Lts.exec_append, ht, Option.bind_some, Lts.exec_cons, hstep]
        exact hrun

end Host

/-! ## The stream -/

namespace EventStream

variable {platform : Swift.Foundation} {s s' : EventStream}

/-- Steps that bring the end about: the threads go on, a call of `next()` that is over returns, the
    consumer lets the stream go, and the `TorrentSession` and the handle are deinitialised. -/
def Step.isEnding : Step → Bool
  | .drop => true
  | .leave => true
  | .returns => true
  | .give => true
  | .outside .release => true
  | .outside .deinit => true
  | .outside l => l.isOwn
  | _ => false

@[simp] theorem take_host (s : EventStream) (outcome : Option Outcome) :
    (s.take outcome).host = s.host := by
  unfold take
  split <;> rfl

/-! ## Who refers to the handle -/

/-- What a step does to the host, and to the reference of the stream. -/
inductive Moves (s s' : EventStream) : Prop
  | rests (host : s'.host = s.host)
      (kept : s'.isReferenced = true → s.isReferenced = true ∨ s.host.released = false)
  | goes (l : Host.Step) (hl : l ≠ .deinit) (host : s.host.step l = some s'.host)
      (kept : s'.isReferenced = true → s.isReferenced = true)
  | ends (host : s.host.step .deinit = some s'.host) (kept : s'.isReferenced = false)

theorem isReferenced_of_busy (h : s.reading ≠ .idle) : s.isReferenced = true :=
  Bool.or_eq_true_iff.mpr (Or.inr (decide_eq_true h))

theorem isReferenced_of_held (h : s.held = true) : s.isReferenced = true :=
  Bool.or_eq_true_iff.mpr (Or.inl h)

theorem onCancel_moves (hs : s.onCancel = some s') : Moves s s' := by
  obtain ⟨host, hhost, rfl⟩ := Option.map_eq_some_iff.mp hs
  exact .goes .close (by simp) hhost id

theorem step_moves {l : Step} (hstep : s.step platform l = some s') : Moves s s' := by
  cases l with
  | acquire =>
      simp only [step, Option.ite_none_left_eq_some, Bool.not_eq_true] at hstep
      obtain rfl := Option.some.inj hstep.2
      exact .rests rfl fun _ => Or.inr hstep.1
  | drop =>
      simp only [step, Option.ite_none_right_eq_some] at hstep
      obtain rfl := Option.some.inj hstep.2
      refine .rests rfl fun href => ?_
      simp [isReferenced, hstep.1] at href
  | next =>
      simp only [step, Option.ite_none_left_eq_some, not_or, Bool.not_eq_false] at hstep
      obtain ⟨⟨_, hheld⟩, hstep⟩ := hstep
      split at hstep
      · obtain rfl := Option.some.inj hstep
        exact .rests rfl Or.inl
      · split at hstep
        · exact onCancel_moves hstep
        · obtain rfl := Option.some.inj hstep
          exact .rests rfl fun _ => Or.inl (isReferenced_of_held hheld)
  | submit x =>
      simp only [step, Option.ite_none_left_eq_some, not_or, not_not] at hstep
      obtain ⟨⟨hlooping, _⟩, hstep⟩ := hstep
      obtain ⟨host, hhost, rfl⟩ := Option.map_eq_some_iff.mp hstep
      exact .goes _ (by simp) hhost fun _ => isReferenced_of_busy (by rw [hlooping]; simp)
  | leave =>
      simp only [step, Option.ite_none_right_eq_some] at hstep
      obtain ⟨⟨hlooping, _⟩, hstep⟩ := hstep
      obtain rfl := Option.some.inj hstep
      exact .rests rfl fun _ => Or.inl (isReferenced_of_busy (by rw [hlooping]; simp))
  | returns =>
      simp only [step] at hstep
      split at hstep
      · next x hperforming =>
          obtain ⟨host, hhost, rfl⟩ := Option.map_eq_some_iff.mp hstep
          refine .goes (.returns x) (by simp) ?_ fun _ =>
            isReferenced_of_busy (by rw [hperforming]; simp)
          rw [take_host]
          exact hhost
      · cases hstep
  | give =>
      simp only [step] at hstep
      split at hstep
      · next result hholding =>
          have hkept : s.isReferenced = true := isReferenced_of_busy (by rw [hholding]; simp)
          split at hstep
          · obtain rfl := Option.some.inj hstep
            exact .rests rfl fun _ => Or.inl hkept
          · split at hstep <;> obtain rfl := Option.some.inj hstep <;>
              exact .rests rfl fun _ => Or.inl hkept
      · cases hstep
  | cancel =>
      simp only [step, Option.ite_none_left_eq_some] at hstep
      obtain ⟨_, hstep⟩ := hstep
      split at hstep
      · obtain rfl := Option.some.inj hstep
        exact .rests rfl Or.inl
      · exact onCancel_moves hstep
  | cancelOp =>
      simp only [step] at hstep
      split at hstep
      · simp only [Option.ite_none_right_eq_some] at hstep
        obtain ⟨host, hhost, rfl⟩ := Option.map_eq_some_iff.mp hstep.2
        exact .goes _ (by simp) hhost id
      · cases hstep
  | outside l =>
      simp only [step, Option.ite_none_left_eq_some, Bool.not_eq_true] at hstep
      obtain ⟨hown, hstep⟩ := hstep
      obtain ⟨host, hhost, rfl⟩ := Option.map_eq_some_iff.mp hstep
      cases l with
      | deinit => exact .ends hhost hown
      | _ => exact .goes _ (by simp) hhost id

/-- Once the handle is gone, nobody refers to it any more. -/
def Left (s : EventStream) : Prop :=
  s.host.gone = true → s.host.released = true ∧ s.isReferenced = false

theorem step_left {l : Step} (h : s.Left) (hstep : s.step platform l = some s') : s'.Left := by
  intro hgone
  cases step_moves hstep with
  | rests hhost hkept =>
      rw [hhost] at hgone ⊢
      obtain ⟨hreleased, hreferenced⟩ := h hgone
      refine ⟨hreleased, Bool.eq_false_iff.mpr fun href => ?_⟩
      rcases hkept href with hbefore | hbefore
      · exact absurd (hreferenced.symm.trans hbefore) (by simp)
      · exact absurd (hreleased.symm.trans hbefore) (by simp)
  | goes m hm hhost hkept =>
      have hsame := (Host.step_gone hhost).resolve_right fun hd => hm hd.1
      obtain ⟨hreleased, hreferenced⟩ := h (hsame ▸ hgone)
      refine ⟨(Host.step_released hhost).1 hreleased, Bool.eq_false_iff.mpr fun href => ?_⟩
      exact absurd (hreferenced.symm.trans (hkept href)) (by simp)
  | ends hhost hkept =>
      refine ⟨?_, hkept⟩
      rcases Host.step_gone hhost with hsame | ⟨_, _, hreferenced, _, _, _, hreleased, _⟩
      · exact (Host.step_released hhost).1 (h (hsame ▸ hgone)).1
      · rw [hreleased]
        simp only [Host.isHandleReferenced, Bool.or_eq_false_iff, Bool.not_eq_eq_eq_not,
          Bool.not_false] at hreferenced
        exact hreferenced.1.1.1.1.1.1

theorem run_left {ls : List Step} (hrun : Lts.exec (step platform) {} ls = some s) : s.Left :=
  Lts.exec_invariant' Left (fun h => by cases h) (fun _ _ _ h hstep => step_left h hstep) ls s hrun

theorem Ok.live (h : s.Ok platform) : s.host.Live := by
  obtain ⟨ls, hls⟩ := h.inside
  exact Host.run_live hls

/-! ## The way to the end -/

/-- Steps that bring the end about lead from `s` to `t`. -/
def Ends (platform : Swift.Foundation) (s t : EventStream) : Prop :=
  ∃ ls, (∀ l ∈ ls, l.isEnding = true) ∧ Lts.exec (step platform) s ls = some t

theorem Ends.refl (platform : Swift.Foundation) (s : EventStream) : Ends platform s s :=
  ⟨[], by simp, rfl⟩

theorem Ends.trans {t u : EventStream} (h : Ends platform s t) (h' : Ends platform t u) :
    Ends platform s u := by
  obtain ⟨ls, hls, ht⟩ := h
  obtain ⟨ls', hls', hu⟩ := h'
  refine ⟨ls ++ ls', fun l hl => (List.mem_append.mp hl).elim (hls l) (hls' l), ?_⟩
  rw [Lts.exec_append, ht, Option.bind_some, hu]

theorem Ends.ok (h : Ends platform s s') (hs : s.Ok platform) : s'.Ok platform := by
  obtain ⟨ls, -, hrun⟩ := h
  exact Lts.exec_invariant' (Ok platform) hs (fun _ _ _ h hstep => step_ok h hstep) ls s' hrun

theorem Ends.of_step {l : Step} (hl : l.isEnding = true) (hstep : s.step platform l = some s') :
    Ends platform s s' :=
  ⟨[l], by simpa using hl, by rw [Lts.exec_cons, hstep]; rfl⟩

/-- What the threads of the host do is an ending step of the stream. -/
theorem Ok.lift (h : s.Ok platform) {l : Host.Step} {host : Host}
    (hl : l.isOwn = true ∨ l = .release) (hstep : s.host.step l = some host) :
    ∃ m t, m.isEnding = true ∧ s.step platform m = some t ∧ t.host = host ∧ t.Ok platform := by
  cases hown : s.isOwn l with
  | false =>
      have hs : s.step platform (.outside l) = some { s with host } := by
        simp only [step, hown, Bool.false_eq_true, if_false, hstep, Option.map_some]
      refine ⟨.outside l, _, ?_, hs, rfl, step_ok h hs⟩
      rcases hl with hl | rfl
      · cases l <;> first | exact hl | rfl
      · rfl
  | true =>
      cases l with
      | returns x =>
          -- the reader's own operation returns to the reader
          obtain ⟨op, hop, hlane⟩ := (Option.any_eq_true _ _).mp hown
          obtain ⟨op', hop', hreturned, -⟩ := Host.returns_spec hstep
          obtain rfl := Option.some.inj (hop.symm.trans hop')
          have hreading := ((h.ops x op hop (of_decide_eq_true hlane)).1).resolve_left
            (Bool.eq_false_iff.mp hreturned)
          have hs : s.step platform .returns =
              some ({ s with host }.take ((s.host.ops.lookup x).bind Op.outcome)) := by
            simp only [step, hreading, hstep, Option.map_some]
          exact ⟨.returns, _, rfl, hs, take_host _ _, step_ok h hs⟩
      | submit | cancel | deinit => simp [Host.Step.isOwn] at hl
      | enqueue | run | wake | woke | close | shutdown | advance | alert | release => cases hown

theorem Ok.lift_run (h : s.Ok platform) {ls : List Host.Step} {host : Host}
    (hls : ∀ l ∈ ls, l.isOwn = true ∨ l = .release)
    (hrun : Lts.exec Host.step s.host ls = some host) :
    ∃ t, Ends platform s t ∧ t.host = host ∧ t.Ok platform := by
  have hlift : ∀ (t : EventStream) (l : Host.Step) (host : Host), t.Ok platform →
      (l.isOwn = true ∨ l = .release) → t.host.step l = some host → ∃ m u, m.isEnding = true ∧
        t.step platform m = some u ∧ u.host = host ∧ u.Ok platform :=
    fun t l host ht hl hstep => ht.lift hl hstep
  obtain ⟨ms, t, hms, ht, hhost, hok⟩ := Lts.exec_lift _ hlift h hls hrun
  exact ⟨t, ⟨ms, hms, ht⟩, hhost, hok⟩

/-- When the host is at rest and the reader is closed, a call of `next()` can return. -/
theorem Ok.idle (h : s.Ok platform) (hrest : s.host.AtRest) (hclosed : s.host.closed = true) :
    ∃ t, Ends platform s t ∧ t.host = s.host ∧ t.reading = .idle := by
  have hover : s.isOver = true := Bool.or_eq_true_iff.mpr (Or.inl hclosed)
  cases hreading : s.reading with
  | idle => exact ⟨s, .refl platform s, rfl, hreading⟩
  | looping =>
      refine ⟨s.finish, .of_step (l := .leave) rfl ?_, rfl, rfl⟩
      simp only [step, hreading, hover, and_self, if_true]
  | performing x =>
      obtain ⟨op, hop, _, hreturned⟩ := h.performing x hreading
      exact absurd (hreturned.symm.trans (hrest.ops x op hop).2.1) (by simp)
  | holding result =>
      refine ⟨s.finish, .of_step (l := .give) rfl ?_, rfl, rfl⟩
      simp only [step, hreading, hover, if_true]

/-- The deinitialiser of the handle can run exactly when nobody refers to the handle. -/
theorem Ok.deinit_iff (h : s.Ok platform) :
    (∃ t, s.step platform (.outside .deinit) = some t) ↔
      s.host.gone = false ∧ s.host.released = true ∧ s.host.AtRest ∧ s.isReferenced = false := by
  have hiff := h.live.deinit_iff
  constructor
  · rintro ⟨t, ht⟩
    simp only [step, Option.ite_none_left_eq_some, Bool.not_eq_true] at ht
    obtain ⟨hown, ht⟩ := ht
    obtain ⟨host, hhost, -⟩ := Option.map_eq_some_iff.mp ht
    obtain ⟨hgone, hreleased, hrest⟩ := hiff.mp ⟨host, hhost⟩
    exact ⟨hgone, hreleased, hrest, hown⟩
  · rintro ⟨hgone, hreleased, hrest, hreferenced⟩
    obtain ⟨host, hhost⟩ := hiff.mpr ⟨hgone, hreleased, hrest⟩
    refine ⟨{ s with host }, ?_⟩
    have hown : s.isOwn .deinit = false := hreferenced
    simp only [step, hown, Bool.false_eq_true, if_false, hhost, Option.map_some]

/-- At rest, with everything else released, the consumer lets the stream go and the handle is
    deinitialised. -/
theorem Ok.end_of_handle (h : s.Ok platform) (hrest : s.host.AtRest)
    (hreleased : s.host.released = true) (hidle : s.reading = .idle) :
    ∃ t, Ends platform s t ∧ t.host.AtRest ∧ t.host.gone = true ∧ t.host.destroys = 1 := by
  cases hgone : s.host.gone with
  | true => exact ⟨s, .refl platform s, hrest, hgone, h.live.destroyed hgone⟩
  | false =>
      have hdrop : s.step platform .drop = some { s with held := false } := by
        simp only [step, hidle, if_true]
      have hok := step_ok h hdrop
      have hunreferenced : isReferenced { s with held := false } = false := by
        simp only [isReferenced, hidle]
        rfl
      obtain ⟨t, ht⟩ := hok.deinit_iff.mpr ⟨hgone, hreleased, hrest, hunreferenced⟩
      have hlive := (step_ok hok ht).live
      have hdone : t.host.AtRest ∧ t.host.gone = true := by
        simp only [step, Option.ite_none_left_eq_some] at ht
        obtain ⟨_, ht⟩ := ht
        obtain ⟨host, hhost, rfl⟩ := Option.map_eq_some_iff.mp ht
        exact hrest.deinit hhost
      exact ⟨t, (Ends.of_step rfl hdrop).trans (.of_step rfl ht), hdone.1, hdone.2,
        hlive.destroyed hdone.2⟩

/-! ## The result -/

/-- The handle is deinitialised when everything is at rest, the `TorrentSession` is released and no
    consumer has the stream, and not before; then the session has been destroyed, once. Whatever
    has happened so far, it comes to that: the operations in flight, the handlers, the closers, a
    shutdown and the reader all give the handle up. -/
theorem session_is_destroyed {ls : List Step} (hrun : Lts.exec (step platform) {} ls = some s) :
    (s.host.gone = true → s.host.released = true ∧ s.isReferenced = false ∧
      s.host.destroys = 1) ∧
    ((∃ t, s.step platform (.outside .deinit) = some t) ↔
      s.host.gone = false ∧ s.host.released = true ∧ s.host.AtRest ∧ s.isReferenced = false) ∧
    ∃ more t, (∀ l ∈ more, l.isEnding = true) ∧ Lts.exec (step platform) s more = some t ∧
      t.host.AtRest ∧ t.host.gone = true ∧ t.host.destroys = 1 := by
  have h := run_ok hrun
  refine ⟨fun hgone => ?_, h.deinit_iff, ?_⟩
  · obtain ⟨hreleased, hreferenced⟩ := run_left hrun hgone
    exact ⟨hreleased, hreferenced, h.live.destroyed hgone⟩
  · obtain ⟨rel, host, hrel, hhost, hrest, hreleased⟩ := h.live.release
    obtain ⟨t, ht, rfl, hok⟩ := h.lift_run hrel hhost
    obtain ⟨u, hu, heq, hidle⟩ := hok.idle hrest (hok.sound.safe.released hreleased)
    obtain ⟨v, hv, hrest', hgone, hdestroys⟩ :=
      (hu.ok hok).end_of_handle (heq ▸ hrest) (heq ▸ hreleased) hidle
    obtain ⟨more, hmore, hrun'⟩ := (ht.trans hu).trans hv
    exact ⟨more, v, hmore, hrun', hrest', hgone, hdestroys⟩

/-- The `TorrentSession` is released while the consumer looks at its first event. -/
def keptStream : List Step :=
  let steps (n : Nat) (lane : Lane) : List Step :=
    List.replicate n (.outside (.run sampleEnvironment lane))
  List.flatten
    [[.outside (.submit 0 .native .mutation (.add sampleRequest)), .outside (.enqueue 0)],
      steps 8 .native, [.outside (.returns 0), .next, .submit 1, .outside (.enqueue 1)],
      steps 8 .events, [.returns, .give, .outside .release, .outside (.wake .closer),
        .outside (.woke sampleEnvironment)]]

/-- Everything else is at rest, but the consumer still has the stream, and with it the handle. -/
theorem keptStream_is_destroyed :
    ∃ s, Lts.exec (step asciiFoundation) {} keptStream = some s ∧
      s.host.isHandleReferenced = false ∧
      (¬ ∃ t, s.step asciiFoundation (.outside .deinit) = some t) ∧
      ∃ more t, (∀ l ∈ more, l.isEnding = true) ∧
        Lts.exec (step asciiFoundation) s more = some t ∧ t.host.AtRest ∧
        t.host.gone = true ∧ t.host.destroys = 1 := by
  have hrun : (Lts.exec (step asciiFoundation) {} keptStream).any
      (fun s => !s.host.isHandleReferenced && s.isReferenced) = true := by decide +kernel
  obtain ⟨s, hs, hend⟩ := (Option.any_eq_true _ _).mp hrun
  obtain ⟨hhost, hkept⟩ := (Bool.and_eq_true _ _).mp hend
  obtain ⟨-, hdeinit, hdone⟩ := session_is_destroyed hs
  refine ⟨s, hs, by simpa using hhost, fun ht => ?_, hdone⟩
  exact absurd (hkept.symm.trans (hdeinit.mp ht).2.2.2) (by simp)

end EventStream

end LibtorrentKit
