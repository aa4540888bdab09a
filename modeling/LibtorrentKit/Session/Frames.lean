/-
  Relations that the calls of the C interface keep.

  A `Frame` is a relation between two states of the session that each change a call makes
  lies in: an update of one job, an event read, a job added or removed. `enter_frame` and
  `resume_frame` follow the calls through once; what the calls leave alone is then an instance:
  that only `ltkit_session_start` starts a torrent, that only `ltkit_session_wake` moves the
  wake generation.
-/
import LibtorrentKit.Session.Moves

namespace LibtorrentKit

/-- The actions start no torrent. -/
def Steady (actions : List Action) : Prop := ∀ h, .command (.resume h) ∉ actions

theorem Prioritizing.steady {actions : List Action} (h : Prioritizing actions) :
    Steady actions := by
  intro handle ha
  obtain ⟨c, heq, hc⟩ := h _ ha
  obtain rfl := Action.command.inj heq
  cases hc

theorem Steady.append {xs ys : List Action} (hx : Steady xs) (hy : Steady ys) :
    Steady (xs ++ ys) := by
  intro h ha
  rcases List.mem_append.mp ha with ha | ha
  · exact hx h ha
  · exact hy h ha

theorem startWaitingCompletion_steady (value : Job) : Steady (startWaitingCompletion value).2 := by
  rcases startWaitingCompletion_cases value with ⟨heq, _⟩ | ⟨_, _, _, heq⟩ <;> rw [heq] <;>
    simp [Steady]

namespace Session

/-- `R` holds between the states around each change that a call makes, as long as the actions
    of an update are `ok`. -/
structure Frame (R : Session → Session → Prop) (ok : List Action → Prop) : Prop where
  refl : ∀ s, R s s
  trans : ∀ {s t u}, R s t → R t u → R s u
  steady : ∀ {actions}, Steady actions → ok actions
  error : ∀ s e, R s { s with lastError := e }
  update : ∀ {s s' : Session} {env : Environment} {id : String} {worked : Job × List Action},
    s.update env id worked = some s' → ok worked.2 → R s s'
  read : ∀ {s s' : Session} {env : Environment} {json : String},
    s.popEvent env json = some s' → R s s'
  insert : ∀ {s s' : Session} {env : Environment} {id : String} {params : AddTorrentParams}
    {value : Job}, s.insertJob env id params value = some s' → R s s'
  remove : ∀ (s : Session) (id : String) (deleteFiles : Bool),
    R s (s.ltkitSessionRemove id deleteFiles).1

namespace Frame

variable {R : Session → Session → Prop} {ok : List Action → Prop}

theorem fail (F : Frame R ok) (s : Session) (code : Code) (m : String) : R s (s.fail code m).1 :=
  F.error s m

theorem reply (F : Frame R ok) (s : Session) (env : Environment) (m : String) (answer : Reply) :
    R s (s.reply env m answer).1 := by
  cases answer with
  | fail code safeMessage => exact F.fail s code safeMessage
  | ok output =>
      simp only [Session.reply]
      split
      · exact F.refl s
      · exact F.fail s _ _

theorem onActive (F : Frame R ok) {s : Session} {env : Environment} {id m : String}
    {body : Job → Job × List Action × Reply} {r : Session × Response}
    (hbody : ∀ value, ok (body value).2.1) (h : s.onActive env id m body = some r) : R s r.1 := by
  unfold Session.onActive at h
  split at h
  · obtain rfl := Option.some.inj h
    exact F.fail s _ _
  · next value hvalue =>
      split at h
      · obtain rfl := Option.some.inj h
        exact F.fail s _ _
      · obtain ⟨t, ht, rfl⟩ := Option.map_eq_some_iff.mp h
        exact F.trans (F.update ht (hbody value)) (F.reply t env m _)

theorem tuned (F : Frame R ok) {s : Session} {env : Environment} {id m : String}
    {body : Job → Job × List Action × Reply} {r : Session × Response}
    (hbody : ∀ value, Prioritizing (body value).2.1) (h : s.onActive env id m body = some r) :
    R s r.1 :=
  F.onActive (fun value => F.steady (hbody value).steady) h

theorem metadataResult (F : Frame R ok) {s : Session} {env : Environment} {id : String}
    {res : Session × Response} (h : s.metadataResult env id = some res) : R s res.1 := by
  unfold Session.metadataResult at h
  split at h
  · obtain rfl := Option.some.inj h
    exact F.fail s _ _
  · split at h
    · obtain rfl := Option.some.inj h
      exact F.fail s _ _
    · split at h
      · obtain ⟨t, ht, rfl⟩ := Option.map_eq_some_iff.mp h
        exact F.trans (F.update ht (F.steady (by simp [Steady]))) (F.fail t _ _)
      · obtain rfl := Option.some.inj h
        exact F.reply s env _ _

theorem resumeMetadata (F : Frame R ok) {s : Session} {env : Environment} {id : String} {g : Nat}
    {res : Session × Response} (h : s.resumeMetadata env id g = some res) : R s res.1 := by
  unfold Session.resumeMetadata at h
  split at h
  · obtain rfl := Option.some.inj h
    exact F.fail s _ _
  · split at h
    · obtain rfl := Option.some.inj h
      exact F.fail s _ _
    · exact F.metadataResult h

theorem metadata (F : Frame R ok) {s : Session} {env : Environment} {id : String} {timeoutMs : Int}
    {res : Session × Option Response} (h : s.ltkitSessionMetadata env id timeoutMs = some res) :
    R s res.1 := by
  unfold ltkitSessionMetadata at h
  split at h
  · obtain rfl := Option.some.inj h
    exact F.refl s
  · split at h
    · obtain rfl := Option.some.inj h
      exact F.error s _
    · split at h
      · obtain rfl := Option.some.inj h
        exact F.reply s env _ _
      · split at h
        · obtain rfl := Option.some.inj h
          exact F.error s _
        · split at h
          · obtain ⟨t, ht, rfl⟩ := Option.map_eq_some_iff.mp h
            exact F.metadataResult ht
          · split at h
            · obtain ⟨t, ht, rfl⟩ := Option.map_eq_some_iff.mp h
              exact F.resumeMetadata ht
            · obtain rfl := Option.some.inj h
              exact F.refl s

theorem resumeCheckpoint (F : Frame R ok) {s : Session} {env : Environment} {id : String} {g : Nat}
    {res : Session × Response} (h : s.resumeCheckpoint env id g = some res) : R s res.1 := by
  unfold Session.resumeCheckpoint at h
  dsimp only at h
  split at h
  · obtain rfl := Option.some.inj h
    exact F.fail s _ _
  · next value hvalue =>
      have habandon : Steady (abandonCheckpoint value).2 := by
        unfold abandonCheckpoint
        split
        · exact startWaitingCompletion_steady _
        · simp [Steady]
      split at h
      · obtain ⟨t, ht, rfl⟩ := Option.map_eq_some_iff.mp h
        exact F.trans (F.update ht (F.steady habandon)) (F.fail t _ _)
      · obtain ⟨t, ht, rfl⟩ := Option.map_eq_some_iff.mp h
        refine F.trans (F.update ht (F.steady (startWaitingCompletion_steady _))) ?_
        split
        · exact F.fail t _ _
        · exact F.reply t env _ _

theorem checkpoint (F : Frame R ok) {s : Session} {env : Environment} {id : String} {flush : Bool}
    {timeoutMs : Int} {res : Session × Option Response}
    (h : s.ltkitSessionCheckpoint env id flush timeoutMs = some res) : R s res.1 := by
  unfold ltkitSessionCheckpoint at h
  split at h
  · obtain rfl := Option.some.inj h
    exact F.refl s
  · split at h
    · obtain rfl := Option.some.inj h
      exact F.error s _
    · next value hvalue =>
        split at h
        · split at h <;> obtain rfl := Option.some.inj h
          · exact F.error s _
          · exact F.reply s env _ _
        · split at h
          · obtain rfl := Option.some.inj h
            exact F.error s _
          · split at h
            · obtain rfl := Option.some.inj h
              exact F.error s _
            · obtain ⟨t, ht, h⟩ := Option.bind_eq_some_iff.mp h
              have hbegun : R s t := by
                refine F.update ht (F.steady ?_)
                rw [beginCheckpoint_eq]
                cases flush <;> simp [Steady]
              split at h
              · obtain ⟨u, hu, rfl⟩ := Option.map_eq_some_iff.mp h
                exact F.trans hbegun (F.resumeCheckpoint hu)
              · obtain rfl := Option.some.inj h
                exact hbegun

theorem resumeNextEvent (F : Frame R ok) {s : Session} {env : Environment}
    {res : Session × Response} (h : s.resumeNextEvent env = some res) : R s res.1 := by
  unfold Session.resumeNextEvent at h
  split at h
  · obtain rfl := Option.some.inj h
    exact F.refl s
  · split at h
    · obtain rfl := Option.some.inj h
      exact F.refl s
    · split at h
      · obtain rfl := Option.some.inj h
        exact F.fail s _ _
      · obtain ⟨t, ht, rfl⟩ := Option.map_eq_some_iff.mp h
        exact F.read ht

theorem nextEvent (F : Frame R ok) {s : Session} {env : Environment} {timeoutMs : Int}
    {res : Session × Option Response} (h : s.ltkitSessionNextEvent env timeoutMs = some res) :
    R s res.1 := by
  unfold ltkitSessionNextEvent at h
  split at h
  · obtain rfl := Option.some.inj h
    exact F.refl s
  · split at h
    · obtain ⟨t, ht, rfl⟩ := Option.map_eq_some_iff.mp h
      exact F.resumeNextEvent ht
    · obtain rfl := Option.some.inj h
      exact F.refl s

theorem add (F : Frame R ok) {s : Session} {env : Environment} {r : AddRequest}
    {res : Session × Response} (h : s.ltkitSessionAdd env r = some res) : R s res.1 := by
  rcases add_inserts h with ⟨code, m, _, rfl⟩ |
    ⟨params, desired, handle, _, _, _, _, hinsert, _⟩
  · exact F.fail s code m
  · exact F.insert hinsert

theorem status (F : Frame R ok) (s : Session) (env : Environment) (id : String) :
    R s (s.ltkitSessionStatus env id).1 := by
  unfold ltkitSessionStatus
  split
  · exact F.fail s _ _
  · exact F.reply s env _ _

theorem takeLastError (F : Frame R ok) (s : Session) (env : Environment) :
    R s (s.ltkitSessionTakeLastError env).1 := by
  simp only [ltkitSessionTakeLastError]
  split
  · exact F.error s ""
  · exact F.error s ""

theorem checked (F : Frame R ok) {s : Session} {p : Prop} [Decidable p] {response : Response}
    {body : Option (Session × Response)} {r : Session × Response}
    (hbody : body = some r → R s r.1)
    (h : (if p then some (s, response) else body) = some r) : R s r.1 := by
  split at h
  · obtain rfl := Option.some.inj h
    exact F.refl s
  · exact hbody h

/-- Every call up to its wait or its end, as long as the two calls that are unlike the others
    are accounted for. -/
theorem enter (F : Frame R ok) {s : Session} {env : Environment} {api : Api}
    {res : Session × Option Response}
    (hstart : ∀ id, api = .start id → ∀ h, ok [.command (.resume h)])
    (hwake : api = .wake → R s s.ltkitSessionWake) (h : s.enter env api = some res) :
    R s res.1 := by
  have hret : ∀ {o : Option (Session × Response)}, (∀ r, o = some r → R s r.1) →
      o.map returning = some res → R s res.1 := by
    intro o ho hr
    obtain ⟨r, hor, rfl⟩ := Option.map_eq_some_iff.mp hr
    exact ho r hor
  cases api with
  | add request => exact hret (fun r hr => F.add hr) h
  | metadata id timeoutMs => exact F.metadata h
  | selectFiles id indexes primary =>
      exact hret (fun r => F.checked (F.tuned fun value =>
        (selectFiles_spec env value indexes primary).2)) h
  | setFilePriority id fileIndex priority =>
      exact hret (fun r => F.checked (F.tuned fun value =>
        (setFilePriority_spec env value fileIndex priority).2)) h
  | setPiecePriority id pieceIndex priority =>
      exact hret (fun r => F.checked (F.tuned fun value =>
        (setPiecePriority_spec env value pieceIndex priority).2)) h
  | start id => exact hret (fun r => F.onActive fun value => hstart id rfl value.handle) h
  | pause id => exact hret (fun r => F.onActive fun value => F.steady (by simp [Steady])) h
  | status id =>
      obtain rfl := Option.some.inj h
      exact F.status s env id
  | pieces id =>
      refine hret (fun r => F.onActive fun value => F.steady ?_) h
      split <;> simp [Steady]
  | pieceCompletion id =>
      refine hret (fun r => F.onActive fun value => F.steady ?_) h
      split <;> simp [Steady]
  | updateStreamingWindow id fileIndex byteOffset criticalBytes warmBytes rate edges =>
      exact hret (fun r => F.checked (F.tuned fun value =>
        (updateStreamingWindow_spec env value fileIndex byteOffset criticalBytes warmBytes rate
          edges).2)) h
  | clearStreamingWindow id =>
      exact hret (fun r => F.tuned fun value => (clearStreamingWindow_spec env value).2) h
  | checkpoint id flush timeoutMs => exact F.checkpoint h
  | remove id deleteFiles =>
      obtain rfl := Option.some.inj h
      exact F.remove s id deleteFiles
  | nextEvent timeoutMs => exact F.nextEvent h
  | takeLastError =>
      obtain rfl := Option.some.inj h
      exact F.takeLastError s env
  | wake =>
      obtain rfl := Option.some.inj h
      exact hwake rfl

/-- The rest of every call that waits. -/
theorem resume (F : Frame R ok) {s : Session} {env : Environment} {g : Nat} {api : Api}
    {res : Session × Response} (h : s.resume env g api = some res) : R s res.1 := by
  cases api with
  | metadata id timeoutMs => exact F.resumeMetadata h
  | checkpoint id flush timeoutMs => exact F.resumeCheckpoint h
  | nextEvent timeoutMs => exact F.resumeNextEvent h
  | _ => cases h

end Frame

/-! ## The wake generation -/

theorem remove_wakeGeneration (s : Session) (id : String) (deleteFiles : Bool) :
    (s.ltkitSessionRemove id deleteFiles).1.wakeGeneration = s.wakeGeneration := by
  unfold ltkitSessionRemove
  split
  · rfl
  · split
    · rfl
    · dsimp only
      split <;> rfl

/-- What a call does besides waking leaves the wake generation as it was. -/
theorem generationFrame :
    Frame (fun s s' => s'.wakeGeneration = s.wakeGeneration) fun _ => True where
  refl _ := rfl
  trans h h' := h'.trans h
  steady _ := trivial
  error _ _ := rfl
  update h _ := by
    obtain ⟨new, hu⟩ := update_spec h
    exact hu.wakeGeneration
  read h := (popEvent_spec h).2.2.1
  insert h := (insertJob_spec h).2.2.1
  remove := remove_wakeGeneration

end Session

/-- The call is one of `ltkit_session_wake`. -/
def Step.isWake : Step → Bool
  | .call _ _ .wake => true
  | _ => false

namespace World

open Session

/-- Only `ltkit_session_wake` moves the wake generation, by one. -/
theorem step_wakeGeneration {w w' : World} {l : Step} (h : w.step l = some w') :
    w'.session.wakeGeneration = w.session.wakeGeneration + if l.isWake then 1 else 0 := by
  cases l with
  | alert env alert =>
      simp only [step, Option.ite_none_left_eq_some, Option.map_eq_some_iff] at h
      obtain ⟨_, s, hh, rfl⟩ := h
      rcases handleAlert_cases hh with rfl | ⟨id, value, _, _, _, hupdate⟩
      · rfl
      · obtain ⟨new, hu⟩ := update_spec hupdate
        exact hu.wakeGeneration
  | destroy =>
      obtain rfl := Option.some.inj h
      rfl
  | call env c api =>
      simp only [step, Option.ite_none_left_eq_some, Option.map_eq_some_iff] at h
      obtain ⟨_, res, hres, rfl⟩ := h
      have hdone : res.1.wakeGeneration =
          w.session.wakeGeneration + if (Step.call env c api).isWake then 1 else 0 := by
        by_cases hwake : api = .wake
        · subst hwake
          obtain rfl := Option.some.inj hres
          rfl
        · have hkept := generationFrame.enter (fun _ _ _ => trivial)
            (fun heq => absurd heq hwake) hres
          have hnot : (Step.call env c api).isWake = false := by
            cases api <;> first | rfl | exact absurd rfl hwake
          rw [hnot]
          exact hkept
      cases hr : res.2 with
      | some response => exact hdone
      | none => exact hdone
  | resume env c =>
      obtain ⟨wait, res, hwait, hres, rfl⟩ := step_resume h
      exact generationFrame.resume hres

end World

end LibtorrentKit
