/-
  Requests to libtorrent and their replies, as the trace records them.

  `Open log h t` says that position `t` of the trace is a flush or save request on the handle
  `h` to which no reply has been handed to a job. `HonestReplies` and `FreshHandles` are what
  is assumed of libtorrent: it answers what it was asked, once, and hands out a new handle
  for every torrent. Both speak of the trace of a whole run, and pass to its prefixes.
-/
import LibtorrentKit.Lib.History
import LibtorrentKit.Session.State

namespace LibtorrentKit

open History

/-! ## Entries -/

def IsBegan (id : String) (e : Entry) : Prop :=
  ∃ handle flush completion, e = .began id handle flush completion

def IsAccepted (id : String) (e : Entry) : Prop := ∃ alert, e = .accepted id alert

/-- An error alert was handed to `id`. -/
def IsErrorFor (id : String) (e : Entry) : Prop :=
  ∃ alert : Alert, e = .alert (some id) alert ∧ alert.kind.isError = true

/-- A request that libtorrent is to answer. -/
def IsRequestOn (h : Handle) (e : Entry) : Prop :=
  e = .command (.flushCache h) ∨ e = .command (.saveResumeData h)

/-- A reply to the request at `t` was handed to a job. -/
def IsReplyTo (t : Nat) (e : Entry) : Prop :=
  ∃ id, ∃ alert : Alert, e = .alert (some id) alert ∧ alert.kind.request = some t

/-- The request at `t` on `h` is unanswered. -/
def Open (log : List Entry) (h : Handle) (t : Nat) : Prop :=
  (∃ e, At log t e ∧ IsRequestOn h e) ∧ ∀ u e, At log u e → ¬ IsReplyTo t e

/-- The command that a reply answers. -/
def Alert.answers (alert : Alert) : Option Command :=
  match alert.kind with
  | .cacheFlushed _ => some (.flushCache alert.handle)
  | .saveResumeData _ _ => some (.saveResumeData alert.handle)
  | .saveResumeDataFailed _ => some (.saveResumeData alert.handle)
  | _ => none

/-- libtorrent replies only to requests made of it, on the handle they were issued on, after
    any delay and to each at most once. -/
def HonestReplies (log : List Entry) : Prop :=
  ∀ u id alert r, At log u (.alert id alert) → alert.kind.request = some r →
    (r < u ∧ ∃ c, alert.answers = some c ∧ At log r (.command c)) ∧
    ∀ u' id' alert', At log u' (.alert id' alert') → alert'.kind.request = some r → u' = u

/-- Every add yields a handle that no earlier add has yielded. -/
def FreshHandles (log : List Entry) : Prop :=
  ∀ t t' params params' h, At log t (.command (.addTorrent params h)) →
    At log t' (.command (.addTorrent params' h)) → t = t'

theorem HonestReplies.anti {log log' : List Entry} (h : HonestReplies log')
    (hp : log <+: log') : HonestReplies log := by
  intro u id alert r hu hr
  obtain ⟨⟨hlt, c, hc, hat⟩, honce⟩ := h u id alert r (hu.mono hp) hr
  refine ⟨⟨hlt, c, hc, ?_⟩, fun u' id' alert' hu' hr' => honce u' id' alert' (hu'.mono hp) hr'⟩
  obtain ⟨new, rfl⟩ := hp
  rcases at_append.mp hat with h | ⟨hle, _⟩
  · exact h
  · have := hu.lt
    omega

theorem FreshHandles.anti {log log' : List Entry} (h : FreshHandles log')
    (hp : log <+: log') : FreshHandles log :=
  fun t t' params params' k ht ht' => h t t' params params' k (ht.mono hp) (ht'.mono hp)

theorem Alert.answers_request {alert : Alert} {r : Nat} {c : Command}
    (hr : alert.kind.request = some r) (hc : alert.answers = some c) :
    IsRequestOn alert.handle (.command c) := by
  unfold Alert.answers at hc
  cases hk : alert.kind <;> simp only [hk, AlertKind.request, reduceCtorEq] at hr hc
  · exact Or.inl (by rw [Option.some.inj hc])
  · exact Or.inr (by rw [Option.some.inj hc])
  · exact Or.inr (by rw [Option.some.inj hc])

theorem isRequestOn_unique {h h' : Handle} {e : Entry} (he : IsRequestOn h e)
    (he' : IsRequestOn h' e) : h = h' := by
  rcases he with rfl | rfl <;> rcases he' with he' | he' <;> simp at he' <;> exact he'

/-! ## How the unanswered requests change -/

/-- Entries that are neither requests on `h` nor replies to such requests. -/
def Unrelated (log : List Entry) (h : Handle) (e : Entry) : Prop :=
  ¬ IsRequestOn h e ∧ ∀ t, IsReplyTo t e → ∀ e', At log t e' → ¬ IsRequestOn h e'

theorem open_append {log new : List Entry} {h : Handle} (hnew : ∀ e ∈ new, Unrelated log h e)
    (t : Nat) : Open (log ++ new) h t ↔ Open log h t := by
  constructor
  · rintro ⟨⟨e, he, hreq⟩, hrep⟩
    refine ⟨?_, fun u e' hu => hrep u e' (hu.append new)⟩
    rcases at_append.mp he with he | ⟨_, he⟩
    · exact ⟨e, he, hreq⟩
    · exact absurd hreq (hnew e he.mem).1
  · rintro ⟨⟨e, he, hreq⟩, hrep⟩
    refine ⟨⟨e, he.append new, hreq⟩, fun u e' hu hrt => ?_⟩
    rcases at_append.mp hu with hu | ⟨_, hu⟩
    · exact hrep u e' hu hrt
    · exact (hnew e' hu.mem).2 t hrt e he hreq

/-- A new request is unanswered: replies speak of earlier positions. -/
theorem open_concat_request {log : List Entry} {h : Handle} {e : Entry} (he : IsRequestOn h e)
    (hback : ∀ u e' t, At log u e' → IsReplyTo t e' → t < u) (t : Nat) :
    Open (log ++ [e]) h t ↔ Open log h t ∨ t = log.length := by
  have hno : ∀ s, ¬ IsReplyTo s e := by
    rintro s ⟨id, alert, rfl, _⟩
    rcases he with he | he <;> cases he
  constructor
  · rintro ⟨⟨e', he', hreq⟩, hrep⟩
    rcases at_append.mp he' with hold | ⟨hle, hnew⟩
    · exact Or.inl ⟨⟨e', hold, hreq⟩, fun u x hu => hrep u x (hu.append _)⟩
    · have := hnew.lt
      simp only [List.length_singleton] at this
      exact Or.inr (by omega)
  · rintro (⟨⟨e', he', hreq⟩, hrep⟩ | rfl)
    · refine ⟨⟨e', he'.append _, hreq⟩, fun u x hu hrt => ?_⟩
      rcases at_append.mp hu with hu | ⟨_, hu⟩
      · exact hrep u x hu hrt
      · exact hno t (List.mem_singleton.mp hu.mem ▸ hrt)
    · refine ⟨⟨e, at_concat, he⟩, fun u x hu hrt => ?_⟩
      rcases at_append.mp hu with hu | ⟨_, hu⟩
      · have := hback u x _ hu hrt
        have := hu.lt
        omega
      · exact hno _ (List.mem_singleton.mp hu.mem ▸ hrt)

/-- A reply answers its request. -/
theorem open_concat_reply {log : List Entry} {h : Handle} {id : String} {alert : Alert} {r : Nat}
    (hr : alert.kind.request = some r) (t : Nat) :
    Open (log ++ [.alert (some id) alert]) h t ↔ Open log h t ∧ t ≠ r := by
  have hnot : ¬ IsRequestOn h (.alert (some id) alert) := by
    rintro (he | he) <;> cases he
  constructor
  · rintro ⟨⟨e, he, hreq⟩, hrep⟩
    refine ⟨⟨?_, fun u x hu => hrep u x (hu.append _)⟩, ?_⟩
    · rcases at_append.mp he with he | ⟨_, he⟩
      · exact ⟨e, he, hreq⟩
      · exact absurd (List.mem_singleton.mp he.mem ▸ hreq) hnot
    · rintro rfl
      exact hrep _ _ at_concat ⟨id, alert, rfl, hr⟩
  · rintro ⟨⟨⟨e, he, hreq⟩, hrep⟩, hne⟩
    refine ⟨⟨e, he.append _, hreq⟩, fun u x hu hrt => ?_⟩
    rcases at_append.mp hu with hu | ⟨_, hu⟩
    · exact hrep u x hu hrt
    · obtain ⟨id', alert', heq, hr'⟩ := List.mem_singleton.mp hu.mem ▸ hrt
      obtain ⟨_, rfl⟩ : some id = some id' ∧ alert = alert' := by
        simpa using heq
      exact hne (Option.some.inj (hr'.symm.trans hr))

/-- The replies of an honest engine speak of earlier positions. -/
theorem HonestReplies.backward {log : List Entry} (h : HonestReplies log) {u t : Nat} {e : Entry}
    (hu : At log u e) (hrt : IsReplyTo t e) : t < u := by
  obtain ⟨id, alert, rfl, hr⟩ := hrt
  exact (h u (some id) alert t hu hr).1.1

/-- A reply that is about to be handed over answers a request that is still unanswered. -/
theorem HonestReplies.open_of_reply {log : List Entry} {id : String} {alert : Alert} {r : Nat}
    (h : HonestReplies (log ++ [.alert (some id) alert])) (hr : alert.kind.request = some r) :
    Open log alert.handle r ∧ ∃ c, alert.answers = some c ∧ At log r (.command c) := by
  obtain ⟨⟨hlt, c, hc, hat⟩, honce⟩ := h log.length _ alert r at_concat hr
  have hold : At log r (.command c) := by
    rcases at_append.mp hat with h | ⟨hle, _⟩
    · exact h
    · omega
  refine ⟨⟨⟨_, hold, Alert.answers_request hr hc⟩, fun u e hu hrt => ?_⟩, c, hc, hold⟩
  obtain ⟨id', alert', rfl, hr'⟩ := hrt
  have := honce u _ alert' (hu.append _) hr'
  have := hu.lt
  omega

/-! ## Checking a trace -/

/-- The request that an entry answers. -/
def Entry.repliesTo : Entry → Option Nat
  | .alert _ a => a.kind.request
  | _ => none

/-- The handle that an entry says was added. -/
def Entry.addedHandle : Entry → Option Handle
  | .command (.addTorrent _ h) => some h
  | _ => none

/-- The entry at `u` is no reply, or an honest one. -/
def honestAt (log : List Entry) (u : Nat) : Bool :=
  match log[u]? with
  | some (.alert _ alert) =>
      match alert.kind.request with
      | none => true
      | some r =>
          decide (r < u) && (alert.answers.any fun c => decide (log[r]? = some (.command c)))
            && (List.range log.length).all fun u' =>
              decide ((log[u']?).bind Entry.repliesTo = some r → u' = u)
  | _ => true

theorem honestReplies_of_check {log : List Entry}
    (h : (List.range log.length).all (honestAt log) = true) : HonestReplies log := by
  intro u id alert r hu hr
  have hat := List.all_eq_true.mp h u (List.mem_range.mpr hu.lt)
  unfold At at hu
  simp only [honestAt, hu, hr, Bool.and_eq_true, decide_eq_true_eq] at hat
  obtain ⟨⟨hlt, hans⟩, honce⟩ := hat
  obtain ⟨c, hc, hcat⟩ := (Option.any_eq_true _ _).mp hans
  have hrc : log[r]? = some (Entry.command c) := by simpa using hcat
  refine ⟨⟨hlt, c, hc, hrc⟩, fun u' id' alert' hu' hr' => ?_⟩
  have hmem := List.all_eq_true.mp honce u' (List.mem_range.mpr hu'.lt)
  unfold At at hu'
  simp only [hu', Option.bind_some, Entry.repliesTo, hr', decide_eq_true_eq] at hmem
  exact hmem trivial

theorem freshHandles_of_check {log : List Entry}
    (h : (List.range log.length).all (fun t => (List.range log.length).all fun t' =>
      decide (((log[t]?).bind Entry.addedHandle).isSome = true →
        (log[t]?).bind Entry.addedHandle = (log[t']?).bind Entry.addedHandle → t = t')) = true) :
    FreshHandles log := by
  intro t t' params params' k ht ht'
  have hat := List.all_eq_true.mp (List.all_eq_true.mp h t (List.mem_range.mpr ht.lt)) t'
    (List.mem_range.mpr ht'.lt)
  unfold At at ht ht'
  simpa [ht, ht', Entry.addedHandle] using hat

end LibtorrentKit
