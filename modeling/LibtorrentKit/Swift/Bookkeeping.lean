/-
  The bookkeeping of the actor.

  `identifiers` and `geometry` are written when a result has come back to the actor, and results
  come back in any order. `Kept`: they agree with the effects whose results have come back, in the
  order in which the native session executed the calls, as long as no result is overtaken
  (`inOrder`). `bookkeeping_agrees`: with no call in flight they then agree with the session.
-/
import LibtorrentKit.Swift.Effects
import LibtorrentKit.Swift.TorrentSession

namespace LibtorrentKit

namespace Swift

namespace TorrentSession

open Acks

variable {s s' : TorrentSession} {x : OpId} {op : Op}

/-! ## The host under the actor -/

/-- A step of the host that the actor, or something outside it, takes between two results. -/
def Between : Host.Step → Prop
  | .submit _ .native semantics api => semantics = semanticsOf api
  | .returns _ => False
  | _ => True

theorem between_of_outside {l : Host.Step} (h : isOutside l = true) : Between l := by
  cases l with
  | submit x lane semantics api =>
      cases lane with
      | native => cases h
      | events => trivial
  | returns x => cases h
  | _ => trivial

/-- What a step does that is not the return of a result: it takes nothing back. -/
structure Frame (s s' : TorrentSession) : Prop where
  identifiers : s'.identifiers = s.identifiers
  geometry : ∀ id g, s'.geometry.lookup id = some g → s.geometry.lookup id = some g
  host : s'.host = s.host ∨ ∃ hl, Between hl ∧ s.host.step hl = some s'.host

theorem Frame.windows (h : Frame s s') (windows : Finmap (fun _ : OpId => WindowCall)) :
    Frame s { s' with windows } := ⟨h.identifiers, h.geometry, h.host⟩

theorem perform_frame {api : Api} (h : s.perform x api = some s') : Frame s s' := by
  obtain ⟨host, hhost, rfl⟩ := Option.map_eq_some_iff.mp h
  exact ⟨rfl, fun _ _ => id, Or.inr ⟨.submit x .native (semanticsOf api) api, rfl, hhost⟩⟩

/-- So it is when `windows` has changed before. -/
theorem perform_of_windows {api : Api} {windows : Finmap (fun _ : OpId => WindowCall)}
    (h : { s with windows }.perform x api = some s') : Frame s s' := by
  obtain ⟨hidentifiers, hgeometry, hhost⟩ := perform_frame h
  exact ⟨hidentifiers, hgeometry, hhost⟩

theorem call_frame {api : Api} (h : s.call x api = some s') : Frame s s' := by
  unfold call at h
  split at h
  · cases h
  · exact perform_frame h

theorem updateStreamingWindow_frame {request : WindowRequest}
    (h : s.updateStreamingWindow x request = some s') : Frame s s' := by
  unfold updateStreamingWindow at h
  split at h
  · cases h
  · split at h
    · unfold plan at h
      split at h
      · exact perform_frame h
      · cases h
    · obtain ⟨t, ht, rfl⟩ := Option.map_eq_some_iff.mp h
      exact (call_frame ht).windows _

theorem goOn_frame {y : OpId} (h : s.goOn x y = some s') : Frame s s' := by
  unfold goOn at h
  split at h
  · dsimp only at h
    split at h
    · exact perform_of_windows h
    · obtain rfl := Option.some.inj h
      exact ⟨rfl, fun _ _ => id, Or.inl rfl⟩
  · cases h

theorem outside_frame {l : Host.Step} (h : s.outside l = some s') : Frame s s' := by
  unfold outside at h
  split at h
  · next hl =>
      obtain ⟨host, hhost, rfl⟩ := Option.map_eq_some_iff.mp h
      refine ⟨rfl, fun id g hg => ?_, Or.inr ⟨l, between_of_outside hl, hhost⟩⟩
      dsimp only at hg
      split at hg
      · simp at hg
      · exact hg
  · cases h

theorem step_frame {l : Step} (h : s.step l = some s') (hl : ∀ x, l ≠ .resume x) : Frame s s' := by
  cases l with
  | call x api => exact call_frame h
  | updateStreamingWindow x request => exact updateStreamingWindow_frame h
  | resume x => exact absurd rfl (hl x)
  | goOn x y => exact goOn_frame h
  | host l => exact outside_frame h

/-! ## A result comes back -/

@[simp] theorem note_host (s : TorrentSession) (e : Effect) : (s.note e).host = s.host := by
  cases e with
  | read id json =>
      simp only [note]
      split
      · rfl
      · rfl
  | _ => rfl

theorem note_identifiers (s : TorrentSession) (e : Effect) (id : String) :
    id ∈ (s.note e).identifiers ↔ if e.changes id then e = .added id else id ∈ s.identifiers := by
  cases e with
  | added i =>
      show id ∈ insert i s.identifiers ↔ _
      by_cases hi : i = id
      · simp [Effect.changes, hi]
      · simp [Effect.changes, hi, Ne.symm hi]
  | removed i =>
      show id ∈ s.identifiers.erase i ↔ _
      by_cases hi : i = id
      · simp [Effect.changes, hi]
      · simp [Effect.changes, hi, Ne.symm hi]
  | read i json =>
      simp only [note, Effect.changes, Bool.false_eq_true, if_false]
      split
      · rfl
      · rfl

/-- A geometry is written when metadata have been read, and given up with its torrent. -/
theorem note_geometry {e : Effect} {id : String} {g : TorrentGeometry}
    (h : (s.note e).geometry.lookup id = some g) :
    (∃ json, e = .read id json ∧ geometryOf json = some g) ∨
      s.geometry.lookup id = some g ∧ e ≠ .removed id := by
  cases e with
  | added i => exact Or.inr ⟨h, by simp⟩
  | removed i =>
      have hi : id ≠ i := fun heq => by
        subst heq
        have hnone : (s.geometry.erase id).lookup id = some g := h
        rw [Finmap.lookup_erase] at hnone
        cases hnone
      have hold : (s.geometry.erase i).lookup id = some g := h
      rw [Finmap.lookup_erase_ne hi] at hold
      exact Or.inr ⟨hold, fun heq => hi (Effect.removed.inj heq).symm⟩
  | read i json =>
      simp only [note] at h
      split at h
      · next g' hgeometry =>
          by_cases hi : id = i
          · subst hi
            rw [Finmap.lookup_insert] at h
            obtain rfl := Option.some.inj h
            exact Or.inl ⟨json, rfl, hgeometry⟩
          · rw [Finmap.lookup_insert_of_ne _ hi] at h
            exact Or.inr ⟨h, by simp⟩
      · exact Or.inr ⟨h, by simp⟩

/-- `updateStreamingWindow` goes on with what `metadata(for:)` has kept. -/
theorem window_keeps (s : TorrentSession) (x : OpId) (effect : Option Effect) :
    (s.window x effect).host = s.host ∧ (s.window x effect).identifiers = s.identifiers ∧
      (s.window x effect).geometry = s.geometry := by
  unfold window
  split
  · exact ⟨rfl, rfl, rfl⟩
  · split
    · split
      · exact ⟨rfl, rfl, rfl⟩
      · exact ⟨rfl, rfl, rfl⟩
    · exact ⟨rfl, rfl, rfl⟩

/-- The state after a result has come back, up to what `updateStreamingWindow` waits for. -/
structure Resumed (s s' : TorrentSession) (x : OpId) (op : Op) : Prop where
  lookup : s.host.ops.lookup x = some op
  returns : s.host.step (.returns x) = some s'.host
  identifiers : s'.identifiers = ((reported op).elim s s.note).identifiers
  geometry : s'.geometry = ((reported op).elim s s.note).geometry

theorem note_with_host (s : TorrentSession) (host : Host) (e : Effect) :
    ({ s with host }.note e).identifiers = (s.note e).identifiers ∧
      ({ s with host }.note e).geometry = (s.note e).geometry := by
  cases e with
  | read id json =>
      unfold note
      dsimp only
      split
      · exact ⟨rfl, rfl⟩
      · exact ⟨rfl, rfl⟩
  | _ => exact ⟨rfl, rfl⟩

theorem resume_spec (h : s.resume x = some s') : ∃ op, Resumed s s' x op := by
  simp only [resume, Option.bind_eq_some_iff, Option.map_eq_some_iff] at h
  obtain ⟨op, hop, host, hhost, rfl⟩ := h
  have hkeeps := window_keeps ((reported op).elim { s with host } { s with host }.note) x
    (reported op)
  refine ⟨op, hop, ?_, ?_, ?_⟩
  · rw [hkeeps.1, hhost]
    cases reported op with
    | none => rfl
    | some e => rw [Option.elim_some, note_host]
  · rw [hkeeps.2.1]
    cases reported op with
    | none => rfl
    | some e => exact (note_with_host s host e).1
  · rw [hkeeps.2.2]
    cases reported op with
    | none => rfl
    | some e => exact (note_with_host s host e).2

/-! ## Runs of the host -/

theorem step_host {l : Step} (h : s.step l = some s') : s'.host = s.host ∨
    ∃ hl, (Between hl ∨ ∃ x, hl = .returns x) ∧ s.host.step hl = some s'.host := by
  by_cases hl : ∃ x, l = .resume x
  · obtain ⟨x, rfl⟩ := hl
    obtain ⟨op, hresumed⟩ := resume_spec h
    exact Or.inr ⟨_, Or.inr ⟨x, rfl⟩, hresumed.returns⟩
  · rcases (step_frame h fun x hx => hl ⟨x, hx⟩).host with heq | ⟨hl, hbetween, hstep⟩
    · exact Or.inl heq
    · exact Or.inr ⟨hl, Or.inl hbetween, hstep⟩

/-- A run of the actor is a run of the host under it. -/
theorem run_host {ls : List Step} (hrun : Lts.exec step {} ls = some s) :
    ∃ hs, Lts.exec Host.step {} hs = some s.host := by
  refine Lts.exec_part host (fun s l s' hstep => ?_) hrun
  rcases step_host hstep with heq | ⟨hl, -, hhl⟩
  · exact Or.inl heq
  · exact Or.inr ⟨hl, hhl⟩

/-- The operation has the semantics with which its method calls `perform`. -/
def Suited (op : Op) : Prop := op.lane = .native → op.semantics = semanticsOf op.api

theorem host_suited {t t' : Host} {hl : Host.Step} (hbetween : Between hl ∨ ∃ x, hl = .returns x)
    (h : ∀ x op, t.ops.lookup x = some op → Suited op) (hstep : t.step hl = some t') :
    ∀ x op, t'.ops.lookup x = some op → Suited op := by
  intro x op' hop'
  have hkept : ∀ {op : Op}, op'.lane = op.lane ∧ op'.semantics = op.semantics ∧ op'.api = op.api →
      Suited op → Suited op' := by
    rintro op ⟨hlane, hsemantics, hapi⟩ hop
    unfold Suited
    rw [hlane, hsemantics, hapi]
    exact hop
  rcases (Host.step_ops hstep).op_before hop' with ⟨⟨hnone, _⟩, _⟩ |
    ⟨op, hop, rfl | hspec | htouch⟩
  · obtain rfl := Host.submit_of_new hstep hnone hop'
    intro hlane
    rcases hbetween with hbetween | ⟨y, hy⟩
    · rw [hlane] at hbetween
      exact hbetween
    · cases hy
  · exact h x op' hop
  · exact hkept hspec.run.kept (h x op hop)
  · exact hkept htouch.kept (h x op hop)

/-- What is known of the operations under the actor, and of their effects. -/
structure Sound (s : TorrentSession) : Prop where
  yields : ∀ x op, s.host.ops.lookup x = some op → op.Yields
  permitted : ∀ x op, s.host.ops.lookup x = some op → op.Permitted
  suited : ∀ x op, s.host.ops.lookup x = some op → Suited op
  logged : s.host.Logged

theorem run_sound {ls : List Step} (hrun : Lts.exec step {} ls = some s) : s.Sound := by
  obtain ⟨hs, hhs⟩ := run_host hrun
  have hsuited := Lts.exec_invariant'
    (fun s : TorrentSession => ∀ x op, s.host.ops.lookup x = some op → Suited op)
    (fun x op hop => by simp at hop)
    (fun s l s' h hstep => by
      rcases step_host hstep with heq | ⟨hl, hbetween, hhl⟩
      · rw [heq]
        exact h
      · exact host_suited hbetween h hhl) ls s hrun
  exact ⟨fun x op hop => Host.run_yields hhs hop, fun x op hop => Host.run_permitted hhs hop,
    hsuited, Host.run_logged hhs⟩

/-! ## Results and effects -/

theorem effect_of_reported {e : Effect} (hok : op.Ok) (h : reported op = some e) :
    op.effect = some e := by
  unfold reported at h
  split at h
  · next response lastError houtcome =>
      have hyielded : op.yielded = some (.native response lastError) := (hok.fits houtcome).2
      have hanswer : op.answer = some response := by
        rcases hok.outcome_iff.mp (Option.isSome_of_eq_some houtcome) with hphase | hphase
        · simp [Op.answer, hphase, hyielded, ClosureResult.response]
        · simp [Op.answer, hphase, hyielded, ClosureResult.response]
      rw [Op.effect, hanswer]
      exact h
  · cases h

/-- Only a cancellation keeps an effect from the method. -/
theorem reported_of_effect {e : Effect} (hy : op.Yields) (houtcome : op.outcome.isSome = true)
    (heffect : op.effect = some e) : reported op = some e ∨ op.semantics = .cancellable := by
  obtain ⟨response, hanswer, hof⟩ := Option.bind_eq_some_iff.mp heffect
  have hyielded : op.yielded.bind ClosureResult.response = some response := by
    rcases hy.ok.outcome_iff.mp houtcome with hphase | hphase
    · simpa [Op.answer, hphase] using hanswer
    · simpa [Op.answer, hphase] using hanswer
  obtain ⟨result, hresult, hresponse⟩ := Option.bind_eq_some_iff.mp hyielded
  have hruns : op.runs = 1 := hy.ran (Option.isSome_of_eq_some hresult)
  obtain ⟨o, ho⟩ := Option.isSome_iff_exists.mp houtcome
  have hfits := hy.ok.fits ho
  cases o with
  | cancellationError =>
      cases hsemantics : op.semantics with
      | cancellable => exact Or.inr rfl
      | mutation =>
          rw [hfits.2.2 hsemantics] at hruns
          cases hruns
  | sessionShutDown =>
      rw [show op.runs = 0 from hfits] at hruns
      cases hruns
  | result result' =>
      obtain rfl := Option.some.inj (hresult.symm.trans hfits.2)
      cases result with
      | nothing => cases hresponse
      | native response' lastError =>
          obtain rfl := Option.some.inj hresponse
          rw [reported, ho]
          exact Or.inl hof

/-- An operation with an effect is one of the actor's. -/
theorem native_of_effect {e : Effect} (hpermitted : op.Permitted) (heffect : op.effect = some e) :
    op.lane = .native := by
  obtain ⟨response, _, hof⟩ := Option.bind_eq_some_iff.mp heffect
  cases hlane : op.lane with
  | native => rfl
  | events =>
      have hapi : op.api = .nextEvent 500 := by
        unfold Op.Permitted at hpermitted
        rw [hlane] at hpermitted
        exact hpermitted
      simp [Effect.of, hapi] at hof

/-- What adds a torrent, or removes one, is a mutation. -/
theorem mutation_of_changes {e : Effect} {id : String} (hpermitted : op.Permitted)
    (hsuited : Suited op) (heffect : op.effect = some e) (hchanges : e.changes id = true) :
    op.semantics = .mutation := by
  rw [hsuited (native_of_effect hpermitted heffect)]
  obtain ⟨response, _, hof⟩ := Option.bind_eq_some_iff.mp heffect
  generalize op.api = api at hof
  unfold Effect.of at hof
  split at hof
  · split at hof
    · rfl
    · rfl
    · obtain rfl := Option.some.inj hof
      cases hchanges
    · cases hof
  · cases hof

/-! ## The order of the results -/

/-- The effects, in the order in which the native session has executed the calls. -/
def effects (s : TorrentSession) : List (CallId × Effect) := s.host.world.session.effects

/-- The effects whose results have come back to the actor. -/
def noted (s : TorrentSession) : List Effect := acked s.host.returnedAt s.effects

/-- Those of them that come after the effect of `x`. -/
def later (s : TorrentSession) (x : OpId) : List Effect :=
  acked s.host.returnedAt (behind (x + 1) s.effects)

/-- The result of `x` comes back after one that it should have come before. -/
def isOvertaken (s : TorrentSession) (x : OpId) : Effect → Bool
  | .added id => decide (newest (Effect.changes id) (s.later x) = some (.removed id))
  | .removed id => decide (newest (Effect.changes id) (s.later x) = some (.added id))
  | .read id json => decide (.removed id ∈ s.later x) && (geometryOf json).isSome

/-- No result is overtaken: when a torrent has been added or removed, the newest result to have
    come back of those that add or remove it later is not of the opposite kind, and when its
    metadata have been read, no result of a later removal has come back. -/
def inOrder (s : TorrentSession) : Step → Bool
  | .resume x => !((s.host.ops.lookup x).bind reported).any (s.isOvertaken x)
  | _ => true

/-- The geometry is that of metadata that were read of `id`, and `P` holds of what came after. -/
def ReadAs (s : TorrentSession) (id : String) (geometry : TorrentGeometry)
    (P : List (CallId × Effect) → Prop) : Prop :=
  ∃ pre c json post, s.effects = pre ++ (c, .read id json) :: post ∧
    geometryOf json = some geometry ∧ P post

/-- The actor has what the effects say whose results have come back. -/
structure Kept (s : TorrentSession) : Prop where
  identifiers : ∀ id, id ∈ s.identifiers ↔
    newest (Effect.changes id) s.noted = some (.added id)
  geometry : ∀ id g, s.geometry.lookup id = some g →
    s.ReadAs id g fun post => .removed id ∉ acked s.host.returnedAt post

theorem kept_init : Kept {} where
  identifiers id := by simp [noted, effects, Session.effects, acked]
  geometry id g h := by simp at h

theorem between_returnedAt {t t' : Host} {hl : Host.Step} (hbetween : Between hl)
    (hstep : t.step hl = some t') : t'.returnedAt = t.returnedAt :=
  Host.step_returnedAt hstep fun x heq => by
    rw [heq] at hbetween
    exact hbetween

theorem Kept.frame {ls : List Step} (hrun : Lts.exec step {} ls = some s) (h : s.Kept)
    (hframe : Frame s s') : s'.Kept := by
  obtain ⟨hs, hhs⟩ := run_host hrun
  obtain ⟨new, heffects, hnew, hreturned⟩ : ∃ new, s'.effects = s.effects ++ new ∧
      (∀ p ∈ new, s.host.returnedAt p.1 = false) ∧ s'.host.returnedAt = s.host.returnedAt := by
    rcases hframe.host with heq | ⟨hl, hbetween, hstep⟩
    · refine ⟨[], ?_, fun p hp => absurd hp List.not_mem_nil, by rw [heq]⟩
      rw [effects, heq, List.append_nil, effects]
    · obtain ⟨new, heffects, hnew⟩ :=
        (Host.run_adds hhs hstep).fresh fun x op hop => Host.run_ok hhs hop
      exact ⟨new, heffects, hnew, between_returnedAt hbetween hstep⟩
  constructor
  · intro id
    rw [hframe.identifiers, h.identifiers, noted, noted, heffects, hreturned, acked_new _ hnew]
  · intro id g hg
    obtain ⟨pre, c, json, post, hread, hgeometry, hpost⟩ :=
    h.geometry id g (hframe.geometry id g hg)
    refine ⟨pre, c, json, post ++ new, ?_, hgeometry, ?_⟩
    · rw [heffects, hread, List.append_assoc, List.cons_append]
    · show .removed id ∉ acked s'.host.returnedAt (post ++ new)
      rw [hreturned, acked_new _ hnew]
      exact hpost

theorem Resumed.effects (h : Resumed s s' x op) : s'.effects = s.effects := by
  obtain ⟨_, _, _, _, _, hworld, _⟩ := Host.returns_spec h.returns
  rw [TorrentSession.effects, hworld, TorrentSession.effects]

/-- The return of a result acknowledges the effect of its operation. -/
theorem Resumed.returned (h : Resumed s s' x op) : op.outcome.isSome = true ∧
    s.host.returnedAt (x + 1) = false ∧
    s'.host.returnedAt = Function.update s.host.returnedAt (x + 1) true := by
  obtain ⟨op', hop', hreturned, houtcome, _, _, hat⟩ := Host.returns_spec h.returns
  obtain rfl := Option.some.inj (h.lookup.symm.trans hop')
  refine ⟨houtcome, ?_, hat⟩
  show (s.host.ops.lookup x).any Op.returned = false
  rw [h.lookup, Option.any_some, hreturned]

/-- The effect that stands in the trace for an operation. -/
theorem Sound.effect (hs : s.Sound) (hop : s.host.ops.lookup x = some op) {e : Effect} :
    (x + 1, e) ∈ s.effects ↔ op.effect = some e := by
  rw [TorrentSession.effects, hs.logged.effect, Host.effectAt, hop, Option.bind_some]

/-- What changes the torrents is reported. -/
theorem Resumed.reported_of_changes (hs : s.Sound) (h : Resumed s s' x op) {e : Effect}
    {id : String} (hmem : (x + 1, e) ∈ s.effects) (hchanges : e.changes id = true) :
    reported op = some e := by
  have heffect := (hs.effect h.lookup).mp hmem
  rcases reported_of_effect (hs.yields x op h.lookup) h.returned.1 heffect with hr | hsemantics
  · exact hr
  · rw [mutation_of_changes (hs.permitted x op h.lookup) (hs.suited x op h.lookup) heffect
      hchanges] at hsemantics
    cases hsemantics

/-- The newest result for `id` after one more has come back. -/
theorem Resumed.newest (hs : s.Sound) (h : Resumed s s' x op) (id : String) :
    newest (Effect.changes id) s'.noted =
      match (reported op).filter (Effect.changes id) with
      | some e => (newest (Effect.changes id) (s.later x)).or (some e)
      | none => newest (Effect.changes id) s.noted := by
  obtain ⟨_, hdone, hat⟩ := h.returned
  rw [noted, h.effects, hat]
  cases heffect : op.effect with
  | none =>
      have hkeys : ∀ p ∈ s.effects, p.1 ≠ x + 1 := by
        rintro ⟨_, e⟩ hp rfl
        rw [hs.effect h.lookup, heffect] at hp
        cases hp
      have hnone : reported op = none := by
        by_contra hne
        obtain ⟨e, he⟩ := Option.ne_none_iff_exists'.mp hne
        rw [effect_of_reported (hs.yields x op h.lookup).ok he] at heffect
        cases heffect
      rw [hnone, Option.filter_none, acked_update hkeys]
      rfl
  | some e =>
      have hmem := (hs.effect h.lookup).mpr heffect
      have hnodup : (s.effects.map Prod.fst).Nodup := hs.logged.nodup
      rw [newest_acknowledge _ hnodup hmem hdone]
      cases hchanges : e.changes id with
      | true =>
          rw [h.reported_of_changes hs hmem hchanges, Option.filter_some, hchanges, if_pos rfl,
            if_pos rfl]
          rfl
      | false =>
          have hnone : (reported op).filter (Effect.changes id) = none := by
            cases hr : reported op with
            | none => rfl
            | some e' =>
                rw [effect_of_reported (hs.yields x op h.lookup).ok hr] at heffect
                obtain rfl := Option.some.inj heffect
                rw [Option.filter_some, hchanges]
                rfl
          rw [hnone]
          rfl

/-- A read geometry stays as it is, unless the removal of its torrent is reported. -/
theorem Resumed.readAs (hs : s.Sound) (h : Resumed s s' x op) {id : String} {g : TorrentGeometry}
    (hread : s.ReadAs id g fun post => .removed id ∉ acked s.host.returnedAt post)
    (hnot : reported op ≠ some (.removed id)) :
    s'.ReadAs id g fun post => .removed id ∉ acked s'.host.returnedAt post := by
  obtain ⟨pre, c, json, post, heffects, hgeometry, hpost⟩ := hread
  refine ⟨pre, c, json, post, h.effects.trans heffects, hgeometry, fun hmem => ?_⟩
  rw [h.returned.2.2] at hmem
  rcases mem_acked_update hmem with hmem | hmem
  · exact hpost hmem
  · refine hnot (h.reported_of_changes hs ?_ (Effect.removed_changes id))
    rw [heffects]
    exact List.mem_append_right _ (List.mem_cons_of_mem _ hmem)

/-- The geometry that the result of `x` brings. -/
theorem Resumed.readNow (hs : s.Sound) (h : Resumed s s' x op) {id json : String}
    {g : TorrentGeometry} (hreported : reported op = some (.read id json))
    (hgeometry : geometryOf json = some g) (hlater : .removed id ∉ s.later x) :
    s'.ReadAs id g fun post => .removed id ∉ acked s'.host.returnedAt post := by
  have hmem : (x + 1, .read id json) ∈ s.effects :=
    (hs.effect h.lookup).mpr (effect_of_reported (hs.yields x op h.lookup).ok hreported)
  have hnodup : (s.effects.map Prod.fst).Nodup := hs.logged.nodup
  obtain ⟨pre, heffects, _, hbehind⟩ := split_of_mem hnodup hmem
  refine ⟨pre, x + 1, json, behind (x + 1) s.effects, h.effects.trans heffects, hgeometry, ?_⟩
  show .removed id ∉ acked s'.host.returnedAt (behind (x + 1) s.effects)
  rw [h.returned.2.2, acked_update hbehind]
  exact hlater

/-- A result that is in order is the newest, when it decides whether `id` is there. -/
theorem newest_inOrder {e : Effect} {id : String} (hok : s.isOvertaken x e = false)
    (hchanges : e.changes id = true) :
    (newest (Effect.changes id) (s.later x)).or (some e) = some e := by
  cases hnew : newest (Effect.changes id) (s.later x) with
  | none => rfl
  | some e' =>
      have hchanges' := Effect.of_changes (newest_mem hnew).2
      rcases Effect.of_changes hchanges with rfl | rfl
      · rcases hchanges' with rfl | rfl
        · rfl
        · exact absurd hnew (of_decide_eq_false hok)
      · rcases hchanges' with rfl | rfl
        · exact absurd hnew (of_decide_eq_false hok)
        · rfl

theorem Kept.resume (hs : s.Sound) (h : s.Kept) (hresumed : Resumed s s' x op)
    (hok : (reported op).any (s.isOvertaken x) = false) : s'.Kept := by
  constructor
  · intro id
    rw [hresumed.identifiers, hresumed.newest hs]
    cases hr : reported op with
    | none => exact h.identifiers id
    | some e =>
        rw [hr, Option.any_some] at hok
        rw [Option.elim_some, note_identifiers, Option.filter_some]
        cases hchanges : e.changes id with
        | true =>
            rw [if_pos rfl, if_pos rfl]
            dsimp only
            rw [newest_inOrder hok hchanges, Option.some.injEq]
        | false =>
            rw [if_neg Bool.false_ne_true, if_neg Bool.false_ne_true]
            exact h.identifiers id
  · intro id g hg
    rw [hresumed.geometry] at hg
    cases hr : reported op with
    | none =>
        rw [hr] at hg
        exact hresumed.readAs hs (h.geometry id g hg) (by simp [hr])
    | some e =>
        rw [hr, Option.elim_some] at hg
        rw [hr, Option.any_some] at hok
        rcases note_geometry hg with ⟨json, rfl, hgeometry⟩ | ⟨hold, hne⟩
        · refine hresumed.readNow hs hr hgeometry ?_
          simpa [isOvertaken, hgeometry] using hok
        · refine hresumed.readAs hs (h.geometry id g hold) ?_
          rw [hr]
          exact fun heq => hne (Option.some.inj heq)

/-- After every run in which no result is overtaken. -/
theorem run_kept {ls : List Step} (hrun : Lts.exec step {} ls = some s)
    (hok : Lts.EachStep step (fun s l => s.inOrder l = true) {} ls) : s.Kept := by
  refine Lts.exec_reached Kept kept_init (fun pre t l u ht hkept hl hstep => ?_) ls s hok hrun
  by_cases hresume : ∃ x, l = .resume x
  · obtain ⟨x, rfl⟩ := hresume
    obtain ⟨op, hresumed⟩ := resume_spec hstep
    refine hkept.resume (run_sound ht) hresumed ?_
    simpa [inOrder, hresumed.lookup] using hl
  · exact hkept.frame ht (step_frame hstep fun x hx => hresume ⟨x, hx⟩)

/-! ## No call in flight -/

/-- No call of the actor is in flight. -/
structure NoneInFlight (s : TorrentSession) : Prop where
  ops : ∀ x op, s.host.ops.lookup x = some op → op.lane = .native → op.returned = true
  windows : s.windows = ∅

instance (s : TorrentSession) : Decidable s.NoneInFlight :=
  decidable_of_iff ((∀ x ∈ s.host.ops.keys, (s.host.ops.lookup x).all
      fun op => decide (op.lane = .native → op.returned = true)) ∧ s.windows = ∅) (by
    refine ⟨fun h => ⟨fun x op hop => ?_, h.2⟩, fun h => ⟨fun x hx => ?_, h.windows⟩⟩
    · have hall := h.1 x (Finmap.mem_keys.mpr (Finmap.mem_of_lookup_eq_some hop))
      rw [hop, Option.all_some] at hall
      exact of_decide_eq_true hall
    · rw [Option.all_eq_true]
      exact fun op hop => decide_eq_true (h.ops x op hop))

/-- The geometry was read of `id`, which has neither been removed nor added since. -/
def Current (s : TorrentSession) (id : String) (geometry : TorrentGeometry) : Prop :=
  s.ReadAs id geometry fun post => ∀ p ∈ post, p.2.changes id = false

/-- The actor knows the torrents of the session, and the geometry only of those. -/
structure Agrees (s : TorrentSession) : Prop where
  identifiers : ∀ id, id ∈ s.identifiers ↔ id ∈ s.host.world.session.jobs
  geometry : ∀ id g, s.geometry.lookup id = some g → id ∈ s.identifiers ∧ s.Current id g

/-- With no call in flight every result has come back. -/
theorem NoneInFlight.noted (hs : s.Sound) (hflight : s.NoneInFlight) :
    ∀ p ∈ s.effects, s.host.returnedAt p.1 = true := by
  rintro ⟨c, e⟩ hp
  obtain ⟨x, rfl⟩ := hs.logged.keys _ hp
  obtain ⟨op, hop, heffect⟩ := Option.bind_eq_some_iff.mp ((hs.logged.effect x e).mp hp)
  have hlane := native_of_effect (hs.permitted x op hop) heffect
  show (s.host.ops.lookup x).any Op.returned = true
  rw [hop, Option.any_some, hflight.ops x op hop hlane]

/-- A torrent that has been read and not removed since is the one that is there. -/
theorem current_of_read {id json : String} {c : CallId} {pre post : List (CallId × Effect)}
    (haccount : World.Accounted s.host.world.session)
    (hread : s.effects = pre ++ (c, .read id json) :: post)
    (hpost : .removed id ∉ post.map Prod.snd) :
    id ∈ s.host.world.session.jobs ∧ ∀ p ∈ post, p.2.changes id = false := by
  have hthere : newest (Effect.changes id) (pre.map Prod.snd) = some (.added id) :=
    haccount.possible pre c (.read id json) post hread
  -- nothing after the read can add the torrent again
  have hflight : ∀ p ∈ post, p.2.changes id = false := by
    rintro ⟨d, e⟩ hp
    by_contra hchanges
    rw [Bool.not_eq_false] at hchanges
    rcases Effect.of_changes hchanges with rfl | rfl
    · obtain ⟨mid, rest, rfl⟩ := List.mem_iff_append.mp hp
      have hsplit : s.effects = (pre ++ (c, .read id json) :: mid) ++ (d, .added id) :: rest := by
        rw [hread, List.append_assoc, List.cons_append]
      refine haccount.possible _ d (.added id) rest hsplit ?_
      rw [List.map_append, newest_append, List.map_cons, newest_cons, hthere]
      cases hmid : newest (Effect.changes id) (mid.map Prod.snd) with
      | none => rfl
      | some e =>
          obtain ⟨hmem, hchanges⟩ := newest_mem hmid
          rcases Effect.of_changes hchanges with rfl | rfl
          · rfl
          · refine absurd ?_ hpost
            rw [List.map_append]
            exact List.mem_append_left _ hmem
    · exact hpost (List.mem_map.mpr ⟨_, hp, rfl⟩)
  refine ⟨(haccount.jobs id).mpr ?_, hflight⟩
  have hnone : newest (Effect.changes id) (post.map Prod.snd) = none := by
    refine newest_eq_none.mpr fun e he => ?_
    obtain ⟨p, hp, rfl⟩ := List.mem_map.mp he
    exact hflight p hp
  have heffects : s.host.world.session.effects = pre ++ (c, .read id json) :: post := hread
  rw [heffects, List.map_append, newest_append, List.map_cons, newest_cons, hnone, hthere]
  rfl

/-- **The bookkeeping.** In every run of the actor, over every interleaving of its calls, of the
    lanes and of the results that come back: as long as no result is overtaken, whenever no call
    is in flight `identifiers` are the torrents of the session, and every cached geometry is of
    metadata that were read of the torrent that is there now. -/
theorem bookkeeping_agrees {ls : List Step} {s : TorrentSession}
    (hrun : Lts.exec step {} ls = some s)
    (hok : Lts.EachStep step (fun s l => s.inOrder l = true) {} ls) (hflight : s.NoneInFlight) :
    s.Agrees := by
  obtain ⟨hs, hhs⟩ := run_host hrun
  obtain ⟨ws, hws⟩ := Host.run_inside hhs
  have haccount := World.run_accounted hws
  have hkept := run_kept hrun hok
  have hall := hflight.noted (run_sound hrun)
  have hidentifiers : ∀ id, id ∈ s.identifiers ↔ id ∈ s.host.world.session.jobs := by
    intro id
    rw [hkept.identifiers, haccount.jobs, noted, acked_all hall, effects]
  refine ⟨hidentifiers, fun id g hg => ?_⟩
  obtain ⟨pre, c, json, post, hread, hgeometry, hpost⟩ := hkept.geometry id g hg
  have hback : ∀ p ∈ post, s.host.returnedAt p.1 = true := fun p hp => by
    refine hall p ?_
    rw [hread]
    exact List.mem_append_right _ (List.mem_cons_of_mem _ hp)
  have hremoved : .removed id ∉ post.map Prod.snd := by
    have hpost' : .removed id ∉ acked s.host.returnedAt post := hpost
    rw [acked_all hback] at hpost'
    exact hpost'
  obtain ⟨hjobs, hsince⟩ := current_of_read haccount hread hremoved
  exact ⟨(hidentifiers id).mpr hjobs, pre, c, json, post, hread, hgeometry, hsince⟩

/-- The native lane executes an operation. -/
def executed (x : OpId) : List Step :=
  .host (.enqueue x) :: List.replicate 8 (.host (.run sampleEnvironment .native))

/-- A torrent is added, and its metadata are read. -/
def orderedRun : List Step :=
  [.call 0 (.add sampleRequest)] ++ executed 0 ++ [.resume 0, .call 1 (.metadata "a" 30000)] ++
    executed 1 ++ [.resume 1]

theorem orderedRun_agrees : (after orderedRun).Agrees ∧
    ((after orderedRun).geometry.lookup "a").isSome = true := by
  have hcheck : Lts.checkEachStep step inOrder {} orderedRun = true := by decide +kernel
  have hend : (after orderedRun).NoneInFlight ∧
      ((after orderedRun).geometry.lookup "a").isSome = true := by decide +kernel
  exact ⟨bookkeeping_agrees (exec_after (by decide +kernel)) (Lts.eachStep_of_check hcheck) hend.1,
    hend.2⟩

/-- A torrent is added and removed; the result of the removal comes back first. -/
def overtakenRun : List Step :=
  [.call 0 (.add sampleRequest), .call 1 (.remove "a" false)] ++ executed 0 ++ executed 1 ++
    [.resume 1, .resume 0]

/-- No call is in flight, and the actor knows a torrent that is not in the session. -/
theorem overtakenRun_disagrees : ∃ s, Lts.exec step {} overtakenRun = some s ∧ s.NoneInFlight ∧
    "a" ∈ s.identifiers ∧ "a" ∉ s.host.world.session.jobs ∧ ¬ s.Agrees := by
  have hin : "a" ∈ (after overtakenRun).identifiers := by decide +kernel
  have hout : "a" ∉ (after overtakenRun).host.world.session.jobs := by decide +kernel
  exact ⟨after overtakenRun, exec_after (by decide +kernel), by decide +kernel, hin, hout,
    fun h => hout ((h.identifiers "a").mp hin)⟩

end TorrentSession

end Swift

end LibtorrentKit
