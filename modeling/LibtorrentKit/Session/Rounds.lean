/-
  The rounds of a checkpoint slot.

  A round begins when `start_checkpoint` issues a request and ends with the reply to its last
  one. `RoundInv` says what the trace holds of the current round of a job, for each phase of
  its barrier: where the round began, which requests it has issued, which replies the barrier
  has accepted, and that no error alert came in between unless one is recorded.

  `honest` says whether libtorrent is assumed to answer only what it was asked. What the
  invariant says about unanswered requests, and about which request a reply answers, stands
  behind it; the rest holds in any case.
-/
import LibtorrentKit.Session.Moves
import LibtorrentKit.Session.Requests

namespace LibtorrentKit

open History Session

/-- The first request of a round. -/
def requestCommand (flush : Bool) (h : Handle) : Command :=
  if flush then .flushCache h else .saveResumeData h

/-! ## The invariant -/

/-- The last round of `id` began at `b`, on the handle `h`. -/
structure Began (log : List Entry) (id : String) (h : Handle) (flush completion : Bool)
    (b : Nat) : Prop where
  began : At log b (.began id h flush completion)
  first : At log (b + 1) (.command (requestCommand flush h))
  latest : NoneAfter (IsBegan id) log b

/-- The save request of the round is at `q`: it is the first one, or it was issued when the
    reply to the flush had been accepted. -/
structure SaveIssued (honest : Prop) (log : List Entry) (id : String) (h : Handle)
    (flush : Bool) (b q : Nat) : Prop where
  order : b < q
  request : At log q (.command (.saveResumeData h))
  fenced : flush = true → ∃ f alert r, b < f ∧ f < q ∧ At log f (.accepted id alert) ∧
    alert.handle = h ∧ alert.kind = .cacheFlushed r ∧ (honest → r = b + 1)

/-- The round has flushed and waits for the reply. -/
structure Flushing (honest : Prop) (log : List Entry) (id : String) (h : Handle)
    (completion : Bool) (slot : CheckpointState) (b : Nat) : Prop where
  round : Began log id h true completion b
  waiting : NoneAfter (IsAccepted id) log b
  clean : slot.error = .ok → NoneAfter (IsErrorFor id) log b
  only : honest → ∀ t, Open log h t ↔ t = b + 1

/-- The round has asked for the resume data and waits for the reply. -/
structure Saving (honest : Prop) (log : List Entry) (id : String) (h : Handle)
    (completion : Bool) (slot : CheckpointState) (flush : Bool) (b q : Nat) : Prop where
  round : Began log id h flush completion b
  issued : SaveIssued honest log id h flush b q
  waiting : NoneAfter (IsAccepted id) log q
  clean : slot.error = .ok → NoneAfter (IsErrorFor id) log b
  only : honest → ∀ t, Open log h t ↔ t = q

/-- The barrier has accepted the resume data at `k`. -/
structure Saved (honest : Prop) (log : List Entry) (id : String) (h : Handle)
    (completion : Bool) (slot : CheckpointState) (flush : Bool) (b q k : Nat) : Prop where
  round : Began log id h flush completion b
  issued : SaveIssued honest log id h flush b q
  after : q < k
  reply : ∃ alert r, At log k (.accepted id alert) ∧ alert.handle = h ∧
    alert.kind = .saveResumeData r slot.data ∧ (honest → r = q)
  clean : slot.error = .ok → ∀ u e, b < u → u < k → At log u e → ¬ IsErrorFor id e
  none : honest → ∀ t, ¬ Open log h t

/-- What the trace holds of the current round of `id`, a job with the handle `h`, the
    completion flag `completion` and the slot `slot`. -/
def RoundInv (honest : Prop) (log : List Entry) (id : String) (h : Handle) (completion : Bool)
    (slot : CheckpointState) : Prop :=
  match slot.barrier.phase with
  | .flushing => ∃ b, Flushing honest log id h completion slot b
  | .saving => ∃ flush b q, Saving honest log id h completion slot flush b q
  | .succeeded => ∃ flush b q k, Saved honest log id h completion slot flush b q k
  | .idle => honest → ∀ t, ¬ Open log h t
  | .failed => honest → ∀ t, ¬ Open log h t

section Phases

variable {honest : Prop} {log : List Entry} {id : String} {h : Handle} {completion : Bool}
  {slot : CheckpointState}

theorem RoundInv.flushing (hr : RoundInv honest log id h completion slot)
    (hp : slot.barrier.phase = .flushing) : ∃ b, Flushing honest log id h completion slot b := by
  simpa only [RoundInv, hp] using hr

theorem RoundInv.saving (hr : RoundInv honest log id h completion slot)
    (hp : slot.barrier.phase = .saving) :
    ∃ flush b q, Saving honest log id h completion slot flush b q := by
  simpa only [RoundInv, hp] using hr

theorem RoundInv.succeeded (hr : RoundInv honest log id h completion slot)
    (hp : slot.barrier.phase = .succeeded) :
    ∃ flush b q k, Saved honest log id h completion slot flush b q k := by
  simpa only [RoundInv, hp] using hr

/-- Outside the pending phases no request is unanswered. -/
theorem RoundInv.none (hr : RoundInv honest log id h completion slot)
    (hp : slot.barrier.pending = false) (hh : honest) (t : Nat) : ¬ Open log h t := by
  cases hphase : slot.barrier.phase with
  | flushing => simp [DiskCheckpoint.pending, hphase] at hp
  | saving => simp [DiskCheckpoint.pending, hphase] at hp
  | succeeded =>
      obtain ⟨_, _, _, _, hs⟩ := hr.succeeded hphase
      exact hs.none hh t
  | idle =>
      simp only [RoundInv, hphase] at hr
      exact hr hh t
  | failed =>
      simp only [RoundInv, hphase] at hr
      exact hr hh t

/-- In a pending phase exactly one request is unanswered. -/
theorem RoundInv.one (hr : RoundInv honest log id h completion slot)
    (hp : slot.barrier.pending = true) (hh : honest) : ∃ q, ∀ t, Open log h t ↔ t = q := by
  rcases DiskCheckpoint.pending_iff.mp hp with hf | hs
  · obtain ⟨b, hb⟩ := hr.flushing hf
    exact ⟨_, hb.only hh⟩
  · obtain ⟨_, _, q, hq⟩ := hr.saving hs
    exact ⟨q, hq.only hh⟩

/-- An unanswered request belongs to the current round, in the phase that waits for it. -/
theorem RoundInv.round_of_open {r : Nat} (hr : RoundInv honest log id h completion slot)
    (hh : honest) (hopen : Open log h r) :
    ∃ b flush, Began log id h flush completion b ∧ b < r ∧
      ((slot.barrier.phase = .flushing ∧ At log r (.command (.flushCache h))) ∨
        (slot.barrier.phase = .saving ∧ At log r (.command (.saveResumeData h)))) := by
  cases hp : slot.barrier.pending with
  | false => exact absurd hopen (hr.none hp hh r)
  | true =>
      rcases DiskCheckpoint.pending_iff.mp hp with hf | hs
      · obtain ⟨b, hb⟩ := hr.flushing hf
        obtain rfl := (hb.only hh r).mp hopen
        exact ⟨b, true, hb.round, Nat.lt_succ_self b, Or.inl ⟨hf, hb.round.first⟩⟩
      · obtain ⟨flush, b, q, hq⟩ := hr.saving hs
        obtain rfl := (hq.only hh r).mp hopen
        exact ⟨b, flush, hq.round, hq.issued.order, Or.inr ⟨hs, hq.issued.request⟩⟩

/-- A free slot, or one whose request has failed. -/
theorem RoundInv.of_none (hp : slot.barrier.phase = .idle ∨ slot.barrier.phase = .failed)
    (hno : honest → ∀ t, ¬ Open log h t) : RoundInv honest log id h completion slot := by
  rcases hp with hp | hp <;> simpa only [RoundInv, hp] using hno

/-- The round looks at nothing of the slot but the barrier, the error and the data. -/
theorem RoundInv.congr {slot' : CheckpointState} (hr : RoundInv honest log id h completion slot)
    (hb : slot'.barrier = slot.barrier) (he : slot'.error = slot.error)
    (hd : slot'.data = slot.data) : RoundInv honest log id h completion slot' := by
  cases hphase : slot.barrier.phase with
  | flushing =>
      obtain ⟨b, h1, h2, h3, h4⟩ := hr.flushing hphase
      simp only [RoundInv, hb, hphase]
      exact ⟨b, h1, h2, he.symm ▸ h3, h4⟩
  | saving =>
      obtain ⟨flush, b, q, h1, h2, h3, h4, h5⟩ := hr.saving hphase
      simp only [RoundInv, hb, hphase]
      exact ⟨flush, b, q, h1, h2, h3, he.symm ▸ h4, h5⟩
  | succeeded =>
      obtain ⟨flush, b, q, k, h1, h2, h3, h4, h5, h6⟩ := hr.succeeded hphase
      simp only [RoundInv, hb, hphase]
      exact ⟨flush, b, q, k, h1, h2, h3, hd.symm ▸ h4, he.symm ▸ h5, h6⟩
  | idle => simpa only [RoundInv, hb, hphase] using hr
  | failed => simpa only [RoundInv, hb, hphase] using hr

/-- When an error is recorded, nothing is claimed about error alerts. -/
theorem RoundInv.noted {error : Code} (hr : RoundInv honest log id h completion slot)
    (hp : slot.barrier.pending = true) (he : error ≠ .ok) :
    RoundInv honest log id h completion { slot with error } := by
  rcases DiskCheckpoint.pending_iff.mp hp with hphase | hphase
  · obtain ⟨b, h1, h2, _, h4⟩ := hr.flushing hphase
    simp only [RoundInv, hphase]
    exact ⟨b, h1, h2, fun hok => absurd hok he, h4⟩
  · obtain ⟨flush, b, q, h1, h2, h3, _, h5⟩ := hr.saving hphase
    simp only [RoundInv, hphase]
    exact ⟨flush, b, q, h1, h2, h3, fun hok => absurd hok he, h5⟩

end Phases

/-! ## Frame -/

/-- What a round of `id` on the handle `h` does not care about. -/
structure Foreign (honest : Prop) (log : List Entry) (id : String) (h : Handle)
    (slot : CheckpointState) (e : Entry) : Prop where
  began : ¬ IsBegan id e
  accepted : ¬ IsAccepted id e
  error : slot.barrier.pending = true → slot.error = .ok → ¬ IsErrorFor id e
  unrelated : honest → Unrelated log h e

section Frame

variable {honest : Prop} {log new : List Entry} {id : String} {h : Handle} {completion : Bool}
  {slot : CheckpointState}

theorem Began.append {flush : Bool} {b : Nat} (hb : Began log id h flush completion b)
    (hnew : ∀ e ∈ new, ¬ IsBegan id e) : Began (log ++ new) id h flush completion b :=
  ⟨hb.began.append new, hb.first.append new, hb.latest.append hnew⟩

theorem SaveIssued.append {flush : Bool} {b q : Nat}
    (hi : SaveIssued honest log id h flush b q) (new : List Entry) :
    SaveIssued honest (log ++ new) id h flush b q := by
  refine ⟨hi.order, hi.request.append new, fun hf => ?_⟩
  obtain ⟨f, alert, r, hbf, hfq, hat, hrest⟩ := hi.fenced hf
  exact ⟨f, alert, r, hbf, hfq, hat.append new, hrest⟩

theorem Saved.append {flush : Bool} {b q k : Nat}
    (hs : Saved honest log id h completion slot flush b q k)
    (hbegan : ∀ e ∈ new, ¬ IsBegan id e) (hunrelated : honest → ∀ e ∈ new, Unrelated log h e) :
    Saved honest (log ++ new) id h completion slot flush b q k := by
  obtain ⟨alert, r, hat, hrest⟩ := hs.reply
  refine ⟨hs.round.append hbegan, hs.issued.append new, hs.after, ⟨alert, r, hat.append new, hrest⟩,
    fun hok u e hbu huk hu => ?_, fun hh t => ?_⟩
  · rcases at_append.mp hu with hu | ⟨hle, _⟩
    · exact hs.clean hok u e hbu huk hu
    · have := hat.lt
      omega
  · rw [open_append (hunrelated hh)]
    exact hs.none hh t

/-- Foreign entries leave the round as it is. -/
theorem RoundInv.append (hr : RoundInv honest log id h completion slot)
    (hnew : ∀ e ∈ new, Foreign honest log id h slot e) :
    RoundInv honest (log ++ new) id h completion slot := by
  have hopen : honest → ∀ t, Open (log ++ new) h t ↔ Open log h t :=
    fun hh => open_append fun e he => (hnew e he).unrelated hh
  have hbegan : ∀ e ∈ new, ¬ IsBegan id e := fun e he => (hnew e he).began
  have haccepted : ∀ e ∈ new, ¬ IsAccepted id e := fun e he => (hnew e he).accepted
  cases hphase : slot.barrier.phase with
  | flushing =>
      obtain ⟨b, hb⟩ := hr.flushing hphase
      have hp : slot.barrier.pending = true := DiskCheckpoint.pending_iff.mpr (Or.inl hphase)
      simp only [RoundInv, hphase]
      exact ⟨b, hb.round.append hbegan, hb.waiting.append haccepted,
        fun hok => (hb.clean hok).append fun e he => (hnew e he).error hp hok,
        fun hh t => (hopen hh t).trans (hb.only hh t)⟩
  | saving =>
      obtain ⟨flush, b, q, hq⟩ := hr.saving hphase
      have hp : slot.barrier.pending = true := DiskCheckpoint.pending_iff.mpr (Or.inr hphase)
      simp only [RoundInv, hphase]
      exact ⟨flush, b, q, hq.round.append hbegan, hq.issued.append new,
        hq.waiting.append haccepted,
        fun hok => (hq.clean hok).append fun e he => (hnew e he).error hp hok,
        fun hh t => (hopen hh t).trans (hq.only hh t)⟩
  | succeeded =>
      obtain ⟨flush, b, q, k, hs⟩ := hr.succeeded hphase
      simp only [RoundInv, hphase]
      exact ⟨flush, b, q, k, hs.append hbegan fun hh e he => (hnew e he).unrelated hh⟩
  | idle =>
      simp only [RoundInv, hphase] at hr ⊢
      exact fun hh t => (hopen hh t).not.mpr (hr hh t)
  | failed =>
      simp only [RoundInv, hphase] at hr ⊢
      exact fun hh t => (hopen hh t).not.mpr (hr hh t)

end Frame

/-! ## Beginning a round -/

/-- Replies in the trace speak of earlier positions. -/
def Backward (log : List Entry) : Prop := ∀ u e t, At log u e → IsReplyTo t e → t < u

theorem requestCommand_isRequest (flush : Bool) (h : Handle) :
    IsRequestOn h (.command (requestCommand flush h)) := by
  cases flush
  · exact Or.inr rfl
  · exact Or.inl rfl

/-- A request after a foreign entry is the only one unanswered, when none was before. -/
theorem open_one {log : List Entry} {h : Handle} {e : Entry} {c : Command}
    (hno : ∀ t, ¬ Open log h t) (he : Unrelated log h e) (hc : IsRequestOn h (.command c))
    (hback : Backward (log ++ [e])) (t : Nat) :
    Open (log ++ [e, .command c]) h t ↔ t = log.length + 1 := by
  have hsplit : log ++ [e, .command c] = (log ++ [e]) ++ [.command c] := by simp
  have hold : ∀ t, ¬ Open (log ++ [e]) h t := by
    intro t
    rw [open_append (by simpa using he)]
    exact hno t
  rw [hsplit, open_concat_request hc hback]
  simp [hold t]

theorem not_began_command {id : String} {c : Command} : ¬ IsBegan id (.command c) := by
  rintro ⟨_, _, _, h⟩
  cases h

theorem not_accepted_command {id : String} {c : Command} : ¬ IsAccepted id (.command c) := by
  rintro ⟨_, h⟩
  cases h

theorem not_error_command {id : String} {c : Command} : ¬ IsErrorFor id (.command c) := by
  rintro ⟨_, h, _⟩
  cases h

/-- Nothing after position `b` but the entry that follows. -/
theorem noneAfter_concat_pair {p : Entry → Prop} {log : List Entry} {x y : Entry} (hy : ¬ p y) :
    NoneAfter p (log ++ [x, y]) log.length := by
  intro u e hu he hp
  rcases at_append.mp he with he | ⟨hle, he⟩
  · have := he.lt
    omega
  · have hlt := he.lt
    simp only [List.length_cons, List.length_nil] at hlt
    obtain rfl : u = log.length + 1 := by omega
    have : e = y := by simpa [At] using he.symm
    exact hy (this ▸ hp)

/-- A free slot begins a round. -/
theorem roundInv_begin {honest : Prop} {log : List Entry} {id : String} {h : Handle}
    {completion : Bool} {slot : CheckpointState} (flush : Bool)
    (hphase : slot.barrier.phase = if flush then .flushing else .saving)
    (hno : honest → ∀ t, ¬ Open log h t) (hback : honest → Backward log) :
    RoundInv honest (log ++ [.began id h flush completion, .command (requestCommand flush h)]) id
      h completion slot := by
  have hunrelated : Unrelated log h (.began id h flush completion) := by
    refine ⟨?_, ?_⟩
    · rintro (h | h) <;> cases h
    · rintro t ⟨_, _, h, _⟩
      cases h
  have hopen : honest → ∀ t, Open (log ++ [.began id h flush completion,
      .command (requestCommand flush h)]) h t ↔ t = log.length + 1 := by
    intro hh
    refine open_one (hno hh) hunrelated (requestCommand_isRequest flush h) fun u e t hu hrt => ?_
    rcases at_append.mp hu with hu | ⟨_, hu⟩
    · exact hback hh u e t hu hrt
    · obtain ⟨_, _, heq, _⟩ := List.mem_singleton.mp hu.mem ▸ hrt
      cases heq
  have hbegan : Began (log ++ [.began id h flush completion,
      .command (requestCommand flush h)]) id h flush completion log.length :=
    ⟨by simp [At], by simp [At], noneAfter_concat_pair not_began_command⟩
  cases flush with
  | true =>
      simp only [if_true] at hphase
      simp only [RoundInv, hphase]
      exact ⟨_, hbegan, noneAfter_concat_pair not_accepted_command,
        fun _ => noneAfter_concat_pair not_error_command, hopen⟩
  | false =>
      simp only [Bool.false_eq_true, if_false] at hphase
      simp only [RoundInv, hphase]
      refine ⟨false, _, log.length + 1, hbegan, ⟨Nat.lt_succ_self _, hbegan.first, fun hf => ?_⟩,
        noneAfter_of_length_le (by simp), fun _ => noneAfter_concat_pair not_error_command, hopen⟩
      cases hf

/-! ## Replies -/

section Replies

variable {honest : Prop} {log : List Entry} {id : String} {h : Handle} {completion : Bool}
  {slot : CheckpointState} {alert : Alert}

theorem HonestReplies.toBackward (hlog : HonestReplies log) : Backward log :=
  fun _ _ _ hu hrt => hlog.backward hu hrt

/-- An honest reply that is handed to a job finds its barrier in the phase that accepts it. -/
theorem RoundInv.reply_phase (hr : RoundInv honest log id h completion slot) (hh : honest)
    (hlog : HonestReplies (log ++ [.alert (some id) alert])) (hhandle : alert.handle = h) :
    (∀ r, alert.kind = .cacheFlushed r → slot.barrier.phase = .flushing) ∧
      (∀ r data, alert.kind = .saveResumeData r data → slot.barrier.phase = .saving) ∧
      ∀ r, alert.kind = .saveResumeDataFailed r → slot.barrier.phase = .saving := by
  subst hhandle
  have hphase : ∀ r, alert.kind.request = some r →
      (slot.barrier.phase = .flushing ∧ At log r (.command (.flushCache alert.handle))) ∨
        (slot.barrier.phase = .saving ∧ At log r (.command (.saveResumeData alert.handle))) := by
    intro r hreq
    obtain ⟨hopen, _⟩ := hlog.open_of_reply hreq
    obtain ⟨_, _, _, _, hphase⟩ := hr.round_of_open hh hopen
    exact hphase
  have hsave : ∀ r, alert.kind.request = some r →
      alert.answers = some (.saveResumeData alert.handle) → slot.barrier.phase = .saving := by
    intro r hreq hans
    obtain ⟨_, c, hc, hat⟩ := hlog.open_of_reply hreq
    obtain rfl := Option.some.inj (hans.symm.trans hc)
    rcases hphase r hreq with ⟨_, hat'⟩ | ⟨hs, _⟩
    · cases hat.unique hat'
    · exact hs
  refine ⟨fun r hk => ?_, fun r data hk => ?_, fun r hk => ?_⟩
  · have hreq : alert.kind.request = some r := by rw [hk]; rfl
    obtain ⟨_, c, hc, hat⟩ := hlog.open_of_reply hreq
    have hans : alert.answers = some (.flushCache alert.handle) := by simp [Alert.answers, hk]
    obtain rfl := Option.some.inj (hans.symm.trans hc)
    rcases hphase r hreq with ⟨hf, _⟩ | ⟨_, hat'⟩
    · exact hf
    · cases hat.unique hat'
  · exact hsave r (by rw [hk]; rfl) (by simp [Alert.answers, hk])
  · exact hsave r (by rw [hk]; rfl) (by simp [Alert.answers, hk])

/-- Entries about an alert are no requests and begin no round. -/
theorem not_began_alert {o : Option String} : ¬ IsBegan id (.alert o alert) := by
  rintro ⟨_, _, _, h⟩
  cases h

theorem not_accepted_alert {o : Option String} : ¬ IsAccepted id (.alert o alert) := by
  rintro ⟨_, h⟩
  cases h

theorem unrelated_accepted {id' : String} : Unrelated log h (.accepted id' alert) := by
  refine ⟨?_, ?_⟩
  · rintro (h | h) <;> cases h
  · rintro t ⟨_, _, h, _⟩
    cases h

/-- After the reply to the only unanswered request, none is unanswered. -/
theorem open_reply {q r : Nat} (honly : ∀ t, Open log alert.handle t ↔ t = q)
    (hlog : HonestReplies (log ++ [.alert (some id) alert])) (hreq : alert.kind.request = some r) :
    r = q ∧ ∀ t, ¬ Open (log ++ [.alert (some id) alert]) alert.handle t := by
  obtain ⟨hopen, _⟩ := hlog.open_of_reply hreq
  have hrq := (honly r).mp hopen
  refine ⟨hrq, fun t => ?_⟩
  rw [open_concat_reply hreq, honly t, hrq]
  exact fun h => h.2 h.1

/-- The reply to the flush is accepted and the save request issued. -/
theorem roundInv_flushed {r : Nat} (hr : RoundInv honest log id h completion slot)
    (hphase : slot.barrier.phase = .flushing) (hk : alert.kind = .cacheFlushed r)
    (hhandle : alert.handle = h)
    (hlog : honest → HonestReplies (log ++ [.alert (some id) alert])) :
    RoundInv honest (log ++ [.alert (some id) alert, .accepted id alert,
      .command (.saveResumeData h)]) id h completion { slot with barrier := ⟨.saving⟩ } := by
  subst hhandle
  obtain ⟨b, hb⟩ := hr.flushing hphase
  have hreq : alert.kind.request = some r := by rw [hk]; rfl
  have hsplit : log ++ [.alert (some id) alert, .accepted id alert,
      .command (.saveResumeData alert.handle)] = (log ++ [.alert (some id) alert]) ++
        [.accepted id alert, .command (.saveResumeData alert.handle)] := by simp
  have hblt : b < log.length := hb.round.began.lt
  have hbegan : ∀ e ∈ [Entry.alert (some id) alert, .accepted id alert,
      .command (.saveResumeData alert.handle)], ¬ IsBegan id e := by
    intro e he
    simp only [List.mem_cons, List.not_mem_nil, or_false] at he
    rcases he with rfl | rfl | rfl
    · exact not_began_alert
    · rintro ⟨_, _, _, h⟩
      cases h
    · exact not_began_command
  have herror : ∀ e ∈ [Entry.alert (some id) alert, .accepted id alert,
      .command (.saveResumeData alert.handle)], ¬ IsErrorFor id e := by
    intro e he
    simp only [List.mem_cons, List.not_mem_nil, or_false] at he
    rcases he with rfl | rfl | rfl
    · rintro ⟨_, heq, herr⟩
      cases heq
      simp [hk, AlertKind.isError] at herr
    · rintro ⟨_, h, _⟩
      cases h
    · exact not_error_command
  simp only [RoundInv]
  refine ⟨true, b, log.length + 2, hb.round.append hbegan, ⟨by omega, by simp [At], fun _ => ?_⟩,
    noneAfter_of_length_le (by simp), fun hok => (hb.clean hok).append herror, fun hh t => ?_⟩
  · exact ⟨log.length + 1, alert, r, by omega, by omega, by simp [At], rfl, hk,
      fun hh => (open_reply (hb.only hh) (hlog hh) hreq).1⟩
  · have hno := (open_reply (hb.only hh) (hlog hh) hreq).2
    rw [hsplit, open_one hno unrelated_accepted (Or.inr rfl) ?_]
    · simp
    · intro u e t hu hrt
      rcases at_append.mp hu with hu | ⟨_, hu⟩
      · exact (hlog hh).backward hu hrt
      · obtain ⟨_, _, heq, _⟩ := List.mem_singleton.mp hu.mem ▸ hrt
        cases heq

/-- The resume data are accepted. -/
theorem roundInv_saved {r : Nat} {data : Bytes} (hr : RoundInv honest log id h completion slot)
    (hphase : slot.barrier.phase = .saving) (hk : alert.kind = .saveResumeData r data)
    (hhandle : alert.handle = h)
    (hlog : honest → HonestReplies (log ++ [.alert (some id) alert])) :
    RoundInv honest (log ++ [.alert (some id) alert, .accepted id alert]) id h completion
      { slot with barrier := ⟨.succeeded⟩, data } := by
  subst hhandle
  obtain ⟨flush, b, q, hq⟩ := hr.saving hphase
  have hreq : alert.kind.request = some r := by rw [hk]; rfl
  have hqlt : q < log.length := hq.issued.request.lt
  have hsplit : log ++ [.alert (some id) alert, .accepted id alert] =
      (log ++ [.alert (some id) alert]) ++ [.accepted id alert] := by simp
  simp only [RoundInv]
  refine ⟨flush, b, q, log.length + 1, ?_, hq.issued.append _, by omega,
    ⟨alert, r, by simp [At], rfl, hk, fun hh => (open_reply (hq.only hh) (hlog hh) hreq).1⟩,
    fun hok u e hbu huk hu herr => ?_, fun hh t => ?_⟩
  · refine hq.round.append fun e he => ?_
    simp only [List.mem_cons, List.not_mem_nil, or_false] at he
    rcases he with rfl | rfl
    · exact not_began_alert
    · rintro ⟨_, _, _, h⟩
      cases h
  · rcases at_append.mp hu with hu | ⟨hle, hu⟩
    · exact hq.clean hok u e hbu hu herr
    · obtain rfl : u = log.length := by omega
      have : e = .alert (some id) alert := by simpa [At] using hu.symm
      obtain ⟨_, heq, herr⟩ := this ▸ herr
      cases heq
      simp [hk, AlertKind.isError] at herr
  · rw [hsplit, open_append (by simpa using unrelated_accepted)]
    exact (open_reply (hq.only hh) (hlog hh) hreq).2 t

/-- The request has failed. -/
theorem roundInv_saveFailed {r : Nat} {data : Bytes}
    (hr : RoundInv honest log id h completion slot) (hphase : slot.barrier.pending = true)
    (hk : alert.kind = .saveResumeDataFailed r) (hhandle : alert.handle = h)
    (hlog : honest → HonestReplies (log ++ [.alert (some id) alert])) :
    RoundInv honest (log ++ [.alert (some id) alert, .accepted id alert]) id h completion
      { slot with barrier := ⟨.failed⟩, data } := by
  subst hhandle
  have hreq : alert.kind.request = some r := by rw [hk]; rfl
  have hsplit : log ++ [.alert (some id) alert, .accepted id alert] =
      (log ++ [.alert (some id) alert]) ++ [.accepted id alert] := by simp
  refine RoundInv.of_none (Or.inr rfl) fun hh t => ?_
  obtain ⟨q, hq⟩ := hr.one hphase hh
  rw [hsplit, open_append (by simpa using unrelated_accepted)]
  exact (open_reply hq (hlog hh) hreq).2 t

end Replies

end LibtorrentKit
