/-
  Who writes `last_error`. A call that waits or succeeds leaves it alone, and so do the alert
  thread, the wakes and the end of the session; `enter_keepsError` and `resume_keepsError` follow
  the calls through. An event read writes it only when it cannot copy the event.
-/
import LibtorrentKit.Session.Reselection
import LibtorrentKit.Session.Windows

namespace LibtorrentKit

namespace Session

variable {s s' : Session} {env : Environment}

/-! ## Calls on one torrent -/

theorem reply_keepsError {m : String} {output : Output}
    (hok : (s.reply env m (.ok output)).2.code = .ok) :
    (s.reply env m (.ok output)).1.lastError = s.lastError := by
  simp only [reply] at hok ⊢
  split at hok
  · next hcopy => rw [if_pos hcopy]
  · cases hok

theorem of_reply_eq_keepsError {r : Session × Response} {response : Response}
    (hkeeps : r.2.code = .ok → r.1.lastError = s.lastError) (h : r = (s', response))
    (hok : response.code = .ok) : s'.lastError = s.lastError := by
  subst h
  exact hkeeps hok

theorem update_keepsError {id : String} {worked : Job × List Action}
    (h : s.update env id worked = some s') : s'.lastError = s.lastError := by
  obtain ⟨new, hu⟩ := update_spec h
  exact hu.lastError

theorem onActive_keepsError {id m : String} {body : Job → Job × List Action × Reply}
    {response : Response}
    (hfails : ∀ value code safeMessage, (body value).2.2 = .fail code safeMessage → code ≠ .ok)
    (h : s.onActive env id m body = some (s', response)) (hok : response.code = .ok) :
    s'.lastError = s.lastError := by
  obtain ⟨value, output, -, -, hupdate, -⟩ := onActive_ok hfails h hok
  exact update_keepsError hupdate

theorem add_keepsError {r : AddRequest} {response : Response}
    (h : s.ltkitSessionAdd env r = some (s', response)) (hok : response.code = .ok) :
    s'.lastError = s.lastError := by
  rcases add_inserts h with ⟨code, m, hcode, heq⟩ |
    ⟨params, desired, handle, -, -, -, -, hinsert, -⟩
  · cases heq
    exact absurd hok hcode
  · exact (insertJob_spec hinsert).2.2.2.1

theorem remove_keepsError {id : String} {deleteFiles : Bool}
    (hok : (s.ltkitSessionRemove id deleteFiles).2.code = .ok) :
    (s.ltkitSessionRemove id deleteFiles).1.lastError = s.lastError := by
  unfold ltkitSessionRemove at hok ⊢
  cases hvalue : s.jobs.lookup id with
  | none => rfl
  | some value =>
    simp only [hvalue] at hok ⊢
    split at hok
    · cases hok
    · next hactive =>
      rw [if_neg hactive]
      cases value.stopped <;> rfl

theorem status_keepsError {id : String} (hok : (s.ltkitSessionStatus env id).2.code = .ok) :
    (s.ltkitSessionStatus env id).1.lastError = s.lastError := by
  unfold ltkitSessionStatus at hok ⊢
  cases hvalue : s.jobs.lookup id with
  | none =>
    simp only [hvalue] at hok
    cases hok
  | some value =>
    simp only [hvalue] at hok ⊢
    exact reply_keepsError hok

/-! ## Calls that wait -/

theorem metadataResult_keepsError {id : String} {response : Response}
    (h : s.metadataResult env id = some (s', response)) (hok : response.code = .ok) :
    s'.lastError = s.lastError := by
  unfold metadataResult at h
  split at h
  · cases h
    cases hok
  · split at h
    · cases h
      cases hok
    · split at h
      · obtain ⟨t, -, ht⟩ := Option.map_eq_some_iff.mp h
        cases ht
        cases hok
      · exact of_reply_eq_keepsError reply_keepsError (Option.some.inj h) hok

theorem resumeMetadata_keepsError {id : String} {generation : Nat} {response : Response}
    (h : s.resumeMetadata env id generation = some (s', response)) (hok : response.code = .ok) :
    s'.lastError = s.lastError := by
  unfold resumeMetadata at h
  split at h
  · cases h
    cases hok
  · split at h
    · cases h
      cases hok
    · exact metadataResult_keepsError h hok

/-- The call waits, or it has succeeded. -/
def Unfailed (answer : Option Response) : Prop :=
  ∀ response, answer = some response → response.code = .ok

/-- A call that returns in its first critical section. -/
theorem of_returning_keepsError {x : Option (Session × Response)} {answer : Option Response}
    (hkeeps : ∀ t response, x = some (t, response) → response.code = .ok →
      t.lastError = s.lastError)
    (h : x.map returning = some (s', answer)) (hunfailed : Unfailed answer) :
    s'.lastError = s.lastError := by
  obtain ⟨⟨t, response⟩, hx, hret⟩ := Option.map_eq_some_iff.mp h
  cases hret
  exact hkeeps t response hx (hunfailed response rfl)

theorem of_reply_keepsError {r : Session × Response} {answer : Option Response}
    (hkeeps : r.2.code = .ok → r.1.lastError = s.lastError)
    (h : some (returning r) = some (s', answer)) (hunfailed : Unfailed answer) :
    s'.lastError = s.lastError := by
  cases h
  exact hkeeps (hunfailed r.2 rfl)

theorem of_fail_keepsError {code : Code} {m : String} {answer : Option Response}
    (hcode : code ≠ .ok) (h : some (returning (s.fail code m)) = some (s', answer)) (hunfailed : Unfailed answer) :
    s'.lastError = s.lastError :=
  of_reply_keepsError (fun hok => absurd hok hcode) h hunfailed

theorem metadata_keepsError {id : String} {timeoutMs : Int} {answer : Option Response}
    (h : s.ltkitSessionMetadata env id timeoutMs = some (s', answer)) (hunfailed : Unfailed answer) :
    s'.lastError = s.lastError := by
  unfold ltkitSessionMetadata at h
  split at h
  · cases h
    rfl
  · split at h
    · exact of_fail_keepsError (by decide) h hunfailed
    · split at h
      · exact of_reply_keepsError reply_keepsError h hunfailed
      · split at h
        · exact of_fail_keepsError (by decide) h hunfailed
        · split at h
          · exact of_returning_keepsError (fun _ _ => metadataResult_keepsError) h hunfailed
          · split at h
            · exact of_returning_keepsError (fun _ _ => resumeMetadata_keepsError) h hunfailed
            · cases h
              rfl

theorem resumeCheckpoint_keepsError {id : String} {generation : Nat} {response : Response}
    (h : s.resumeCheckpoint env id generation = some (s', response)) (hok : response.code = .ok) :
    s'.lastError = s.lastError := by
  unfold resumeCheckpoint at h
  dsimp only at h
  split at h
  · cases h
    cases hok
  · split at h
    · obtain ⟨t, -, ht⟩ := Option.map_eq_some_iff.mp h
      cases ht
      cases hok
    · obtain ⟨t, hupdate, ht⟩ := Option.map_eq_some_iff.mp h
      split at ht
      · next herror =>
        cases ht
        exact absurd hok herror
      · exact (of_reply_eq_keepsError reply_keepsError ht hok).trans (update_keepsError hupdate)

theorem checkpoint_keepsError {id : String} {flush : Bool} {timeoutMs : Int}
    {answer : Option Response}
    (h : s.ltkitSessionCheckpoint env id flush timeoutMs = some (s', answer))
    (hunfailed : Unfailed answer) : s'.lastError = s.lastError := by
  unfold ltkitSessionCheckpoint at h
  split at h
  · cases h
    rfl
  · split at h
    · exact of_fail_keepsError (by decide) h hunfailed
    · split at h
      · split at h
        · exact of_fail_keepsError (by decide) h hunfailed
        · exact of_reply_keepsError reply_keepsError h hunfailed
      · split at h
        · exact of_fail_keepsError (by decide) h hunfailed
        · split at h
          · exact of_fail_keepsError (by decide) h hunfailed
          · obtain ⟨t, hupdate, h⟩ := Option.bind_eq_some_iff.mp h
            refine Eq.trans ?_ (update_keepsError hupdate)
            split at h
            · exact of_returning_keepsError (fun _ _ => resumeCheckpoint_keepsError) h hunfailed
            · cases h
              rfl

/-! ## Event reads -/

/-- An event read that gets to an event can copy it. -/
def readable (s : Session) (env : Environment) : Bool :=
  s.shuttingDown || (s.events.front env.mailboxOrder).all fun json => copyBuffer env json.isEmpty

theorem popEvent_keepsError {json : String} (h : s.popEvent env json = some s') :
    s'.lastError = s.lastError := by
  unfold popEvent at h
  split at h
  · cases h
    rfl
  · cases h

theorem resumeNextEvent_keepsError {response : Response} (hreadable : s.readable env = true)
    (h : s.resumeNextEvent env = some (s', response)) : s'.lastError = s.lastError := by
  unfold resumeNextEvent at h
  split at h
  · cases h
    rfl
  · next hrunning =>
    split at h
    · cases h
      rfl
    · next json hfront =>
      have hcopy : copyBuffer env json.isEmpty = true := by
        rw [readable, hfront, Bool.or_eq_true] at hreadable
        exact hreadable.resolve_left hrunning
      rw [hcopy] at h
      obtain ⟨t, ht, heq⟩ := Option.map_eq_some_iff.mp h
      cases heq
      exact popEvent_keepsError ht

theorem nextEvent_keepsError {timeoutMs : Int} {answer : Option Response}
    (hreadable : s.readable env = true)
    (h : s.ltkitSessionNextEvent env timeoutMs = some (s', answer)) :
    s'.lastError = s.lastError := by
  unfold ltkitSessionNextEvent at h
  split at h
  · cases h
    rfl
  · split at h
    · obtain ⟨⟨t, response⟩, ht, heq⟩ := Option.map_eq_some_iff.mp h
      cases heq
      exact resumeNextEvent_keepsError hreadable ht
    · cases h
      rfl

/-! ## All calls -/

/-- A call that waits or succeeds leaves `last_error` alone. -/
theorem enter_keepsError {api : Api} {answer : Option Response}
    (hread : ∀ timeoutMs, api ≠ .nextEvent timeoutMs) (htake : api ≠ .takeLastError)
    (h : s.enter env api = some (s', answer)) (hunfailed : Unfailed answer) :
    s'.lastError = s.lastError := by
  have htuned : ∀ {id : String} {body : Job → Job × List Action × Reply},
      (∀ value code safeMessage, (body value).2.2 = .fail code safeMessage → code ≠ .ok) →
      ∀ t response, s.onActive env id "" body = some (t, response) → response.code = .ok →
        t.lastError = s.lastError :=
    fun hfails _ _ => onActive_keepsError hfails
  have hinvalid : ∀ {x : Option (Session × Response)} {p : Prop} [Decidable p],
      (∀ t response, x = some (t, response) → response.code = .ok → t.lastError = s.lastError) →
      ∀ t response, (if p then some (s, { code := .invalidArgument }) else x) = some (t, response) →
        response.code = .ok → t.lastError = s.lastError := by
    intro x p _ hx t response hif hok
    split at hif
    · cases hif
      cases hok
    · exact hx t response hif hok
  cases api with
  | add request => exact of_returning_keepsError (fun _ _ => add_keepsError) h hunfailed
  | metadata id timeoutMs => exact metadata_keepsError h hunfailed
  | selectFiles id indexes primary =>
    exact of_returning_keepsError (hinvalid (htuned fun _ _ _ => selectFiles_fails)) h hunfailed
  | setFilePriority id fileIndex priority =>
    exact of_returning_keepsError (hinvalid (htuned fun _ _ _ => setFilePriority_fails)) h hunfailed
  | setPiecePriority id pieceIndex priority =>
    exact of_returning_keepsError (hinvalid (htuned fun _ _ _ => setPiecePriority_fails)) h hunfailed
  | start id => exact of_returning_keepsError (htuned (by simp)) h hunfailed
  | pause id => exact of_returning_keepsError (htuned (by simp)) h hunfailed
  | status id => exact of_reply_keepsError status_keepsError h hunfailed
  | pieces id =>
    refine of_returning_keepsError (fun _ _ => onActive_keepsError ?_) h hunfailed
    intro value code safeMessage hfail
    split at hfail
    · cases hfail
      decide
    · cases hfail
  | pieceCompletion id =>
    refine of_returning_keepsError (fun _ _ => onActive_keepsError ?_) h hunfailed
    intro value code safeMessage hfail
    split at hfail
    · cases hfail
      decide
    · cases hfail
  | updateStreamingWindow id fileIndex byteOffset criticalBytes warmBytes rate edges =>
    exact of_returning_keepsError (hinvalid fun _ _ => onActive_keepsError
      fun _ _ _ => updateStreamingWindow_fails) h hunfailed
  | clearStreamingWindow id =>
    exact of_returning_keepsError (htuned fun _ _ _ => clearStreamingWindow_fails) h hunfailed
  | checkpoint id flush timeoutMs => exact checkpoint_keepsError h hunfailed
  | remove id deleteFiles => exact of_reply_keepsError remove_keepsError h hunfailed
  | nextEvent timeoutMs => exact absurd rfl (hread timeoutMs)
  | takeLastError => exact absurd rfl htake
  | wake =>
    cases h
    rfl

theorem resume_keepsError {api : Api} {generation : Nat} {response : Response}
    (hread : ∀ timeoutMs, api ≠ .nextEvent timeoutMs)
    (h : s.resume env generation api = some (s', response)) (hok : response.code = .ok) :
    s'.lastError = s.lastError := by
  cases api with
  | metadata id timeoutMs => exact resumeMetadata_keepsError h hok
  | checkpoint id flush timeoutMs => exact resumeCheckpoint_keepsError h hok
  | nextEvent timeoutMs => exact absurd rfl (hread timeoutMs)
  | _ => cases h

theorem handleAlert_keepsError {alert : Alert} (h : s.handleAlert env alert = some s') :
    s'.lastError = s.lastError := by
  rcases handleAlert_cases h with rfl | ⟨id, value, -, -, -, hupdate⟩
  · rfl
  · have hkeeps := update_keepsError hupdate
    exact hkeeps

end Session

end LibtorrentKit
