/-
  The events that reach the consumer: `NativeEventReader.next` and the `AsyncStream` around it.

  One consumer calls `next()` again and again. Each turn of its loop is an operation on the event
  lane; between the operation and the return of its event the reader looks once more whether it
  has been closed or its task cancelled. The stream is over for good once `next()` has returned
  nil or its task has been cancelled in it.

  `given` records what `next()` has returned; the answers of `ltkit_session_next_event` are in the
  trace of the session (`readings`). Nothing is handed to the consumer twice or out of order, and
  at most the last event that has been read is missing (`events_given_once`).
-/
import LibtorrentKit.Session.Draining
import LibtorrentKit.Swift.Decoding
import LibtorrentKit.Swift.Effects
import LibtorrentKit.Swift.ErrorTexts
import LibtorrentKit.Swift.Isolation
import LibtorrentKit.Swift.Lifetime
import LibtorrentKit.Swift.Outcomes
import LibtorrentKit.Swift.TorrentEvent

namespace LibtorrentKit

/-! ## The closure -/

namespace Swift

/-- What the closure of `NativeEventReader.next` makes of an answer: `nil` once the session is
    shut down or when there is no event, else an event, which is an error if the event could not
    be read or not be decoded. -/
def eventOf (platform : Foundation) (response : Response) : Option TorrentEvent :=
  if response.code = .timedOut ∨ response.code = .sessionShutDown then none
  else
    match response.code, response.output with
    | .ok, .text text =>
        if text.isEmpty then
          some (.error none (.native platform .event response.code.rawValue
            (some "The native event could not be read.")))
        else
          some ((decodeEvent platform text).getD (.error none
            (.native platform .event Code.nativeFailure.rawValue
              (some "The native event could not be decoded."))))
    | _, _ =>
        some (.error none (.native platform .event response.code.rawValue
          (some "The native event could not be read.")))

end Swift

/-- The value of the closure. -/
def ClosureResult.event (platform : Swift.Foundation) (result : ClosureResult) :
    Option Swift.TorrentEvent :=
  result.response.bind (Swift.eventOf platform)

/-! ## The stream -/

/-- How far a call of `next()` is. -/
inductive Reading where
  /-- No call runs. -/
  | idle
  /-- The condition of the loop comes next. -/
  | looping
  /-- `perform` runs, as operation `x`. -/
  | performing (x : OpId)
  /-- `perform` has returned `result`. -/
  | holding (result : ClosureResult)
  deriving DecidableEq, Repr

structure EventStream where
  host : Host := {}
  reading : Reading := .idle
  /-- `Task.isCancelled`, of the consumer. -/
  cancelled : Bool := false
  /-- `AsyncStream` still has its closure. -/
  live : Bool := true
  /-- The consumer has the stream. -/
  held : Bool := true
  given : List Swift.TorrentEvent := []

namespace EventStream

inductive Step where
  /-- The consumer takes `TorrentSession.events`. -/
  | acquire
  /-- The consumer lets the stream go, with its iterator. -/
  | drop
  /-- The consumer asks for the next event. -/
  | next
  /-- The loop goes on with operation `x`. -/
  | submit (x : OpId)
  /-- The loop ends, or `perform` finds its task cancelled. -/
  | leave
  /-- `perform` returns or throws. -/
  | returns
  /-- The check after `perform`. -/
  | give
  /-- The task of the consumer is cancelled. -/
  | cancel
  /-- The handler of the operation runs, when its task is cancelled. -/
  | cancelOp
  /-- Anything else. -/
  | outside (l : Host.Step)

/-- The reader is closed, or its task is cancelled. -/
def isOver (s : EventStream) : Bool := s.host.closed || s.cancelled

/-- `next()` returns nil. -/
def finish (s : EventStream) : EventStream := { s with reading := .idle, live := false }

/-- `onCancel`: the stream gives up its closure and closes the reader. -/
def onCancel (s : EventStream) : Option EventStream :=
  (s.host.step .close).map fun host => { s with host, cancelled := true, live := false }

/-- The closures of the stream keep the reader, and the reader the handle; so does a call of
    `next()`. -/
def isReferenced (s : EventStream) : Bool := s.held || decide (s.reading ≠ .idle)

/-- Steps of the host that only the event reader takes, or that the stream rules out. -/
def isOwn (s : EventStream) : Host.Step → Bool
  | .submit _ lane _ _ => decide (lane = .events)
  | .cancel x => (s.host.ops.lookup x).any fun op => decide (op.lane = .events)
  | .returns x => (s.host.ops.lookup x).any fun op => decide (op.lane = .events)
  | .deinit => s.isReferenced
  | _ => false

/-- `next()` goes on with the outcome of `perform`. -/
def take (s : EventStream) (outcome : Option Outcome) : EventStream :=
  match outcome with
  | some (.result result) => { s with reading := .holding result }
  | _ => s.finish

def step (platform : Swift.Foundation) (s : EventStream) : Step → Option EventStream
  | .acquire => if s.host.released then none else some { s with held := true }
  | .drop => if s.reading = .idle then some { s with held := false } else none
  | .next =>
      if s.reading ≠ .idle ∨ s.held = false then none
      else if !s.live then some s
      else if s.cancelled then s.onCancel
      else some { s with reading := .looping }
  | .submit x =>
      if s.reading ≠ .looping ∨ s.cancelled = true then none
      else
        (s.host.step (.submit x .events .cancellable (.nextEvent 500))).map fun host =>
          { s with host, reading := .performing x }
  | .leave => if s.reading = .looping ∧ s.isOver = true then some s.finish else none
  | .returns =>
      match s.reading with
      | .performing x =>
          (s.host.step (.returns x)).map fun host =>
            { s with host }.take ((s.host.ops.lookup x).bind Op.outcome)
      | _ => none
  | .give =>
      match s.reading with
      | .holding result =>
          if s.isOver then some s.finish
          else
            match result.event platform with
            | some event => some { s with reading := .idle, given := s.given ++ [event] }
            | none => some { s with reading := .looping }
      | _ => none
  | .cancel =>
      if s.cancelled then none
      else if s.reading = .idle then some { s with cancelled := true }
      else s.onCancel
  | .cancelOp =>
      match s.reading with
      | .performing x =>
          if s.cancelled then (s.host.step (.cancel x)).map fun host => { s with host } else none
      | _ => none
  | .outside l => if s.isOwn l then none else (s.host.step l).map fun host => { s with host }

end EventStream

/-! ## What has been read -/

/-- The answer, if it is one of `ltkit_session_next_event`. -/
def Api.readingOf (api : Api) (response : Response) : Option Response :=
  (Entry.returned 0 api response).reading

theorem Entry.reading_returned (c : CallId) (api : Api) (response : Response) :
    (Entry.returned c api response).reading = api.readingOf response := by
  cases api <;> rfl

theorem Api.readingOf_operation {api : Api} (h : Host.isOperation api = true)
    (response : Response) : api.readingOf response = none := by
  cases api with
  | nextEvent timeoutMs => cases h
  | _ => rfl

namespace World

open Session

variable {w w' : World} {env : Environment} {c : CallId}

theorem call_readings {api : Api} {answer : Option Response}
    (h : w.call env c api = some (w', answer)) :
    w'.session.readings = w.session.readings ++ (answer.bind api.readingOf).toList := by
  obtain ⟨s, henter⟩ := call_enter h
  have hbegan : (w.session.record (.called c api)).readings = w.session.readings := by
    rw [readings_record]
    exact List.append_nil _
  have hreadings := (readings_within (enter_fromCall henter).within).trans hbegan
  have hstep := (call_spec h).1
  simp only [step, Option.ite_none_left_eq_some, henter, Option.map_some, Option.some.injEq]
    at hstep
  obtain ⟨_, rfl⟩ := hstep
  cases answer with
  | none => exact hreadings.trans (List.append_nil _).symm
  | some response =>
      show (s.record (.returned c api response)).readings = _
      rw [readings_record, hreadings, Entry.reading_returned]
      rfl

theorem finish_readings {wait : Wait} {response : Response} (hc : w.Callers)
    (hwait : w.calls c = some wait) (h : w.finish env c = some (w', response)) :
    w'.session.readings = w.session.readings ++ (wait.api.readingOf response).toList := by
  obtain ⟨wait', s, hwait', hresume⟩ := finish_resume h
  obtain rfl := Option.some.inj (hwait.symm.trans hwait')
  have hstep := (finish_spec h).1
  simp only [step, hwait, Option.ite_none_left_eq_some, hresume, Option.map_some,
    Option.some.injEq] at hstep
  obtain ⟨_, rfl⟩ := hstep
  show (s.record (.returned c wait.api response)).readings = _
  rw [readings_record, readings_within (hc.resumed hwait hresume).fromCall.within,
    Entry.reading_returned]

end World

/-- What an operation of the event lane has read. -/
def Op.reading (op : Op) : Option Response := if op.lane = .events then op.answer else none

namespace Host

variable {s s' : Host}

def readings (s : Host) : List Response := s.world.session.readings

def readAt (s : Host) : OpId → Option Response := s.opAt Op.reading

theorem readAt_setOp {x : OpId} {op : Op} (h : op.reading = none) :
    (s.setOp x op).readAt x = none := by
  rw [readAt, opAt_insert (setOp_ops s x op), Function.update_self, h]

/-- A step reads nothing, or it answers the call of an operation of the event lane. -/
inductive Reads (s s' : Host) : Prop
  | nothing (h : s'.readings = s.readings) (hat : s'.readAt = s.readAt)
  | answer (x : OpId) (op : Op) (response : Response) (hop : s.ops.lookup x = some op)
      (hlane : op.lane = .events) (hphase : op.phase = .calling ∨ op.phase = .waiting)
      (h : s'.readings = s.readings ++ [response])
      (hat : s'.readAt = Function.update s.readAt x (some response))

theorem runOp_reads {env : Environment} {x : OpId} {op op' : Op} (hc : s.world.Callers)
    (hcalling : s.Calling) (hmay : op.Permitted) (hy : op.Yields)
    (hop : s.ops.lookup x = some op) (hspec : RunOp s s' x op op')
    (hworld : RunWorld s s' env x op op') : Reads s s' := by
  have hat : s'.readAt = Function.update s.readAt x op'.reading := opAt_insert hspec.ops
  have hsame : s'.readings = s.readings → (∀ response, op'.phase ≠ .answered response) →
      Reads s s' := fun h hphase => by
    refine .nothing h (opAt_same hop hspec.ops ?_)
    rcases hspec.run.answer_cases hy with hanswer | ⟨response, _, hphase'⟩
    · rw [Op.reading, Op.reading, hspec.run.kept.1, hanswer]
    · exact absurd hphase' (hphase response)
  have hanswer : ∀ response, (op.phase = .calling ∨ op.phase = .waiting) →
      op'.phase = .answered response →
      s'.readings = s.readings ++ (op.api.readingOf response).toList → Reads s s' := by
    intro response hphase hphase' hreadings
    have hself : op'.answer = some response := by rw [Op.answer, hphase']
    cases hlane : op.lane with
    | native =>
        rw [Op.Permitted, hlane] at hmay
        rw [Api.readingOf_operation hmay] at hreadings
        refine .nothing (hreadings.trans (List.append_nil _)) (opAt_same hop hspec.ops ?_)
        rw [Op.reading, Op.reading, hspec.run.kept.1, hlane, if_neg (by simp), if_neg (by simp)]
    | events =>
        rw [Op.Permitted, hlane] at hmay
        have hmay : op.api = .nextEvent 500 := hmay
        rw [hmay] at hreadings
        refine .answer x op response hop hlane hphase hreadings (hat.trans ?_)
        rw [Op.reading, hspec.run.kept.1, hlane, if_pos rfl, hself]
  cases hworld with
  | none hphase hphase' heq =>
      refine .nothing (congrArg (fun w => w.session.readings) heq) (opAt_same hop hspec.ops ?_)
      rcases hspec.run.answer_cases hy with hanswer | ⟨response, hcall, _⟩
      · rw [Op.reading, Op.reading, hspec.run.kept.1, hanswer]
      · rcases hcall with hcall | hcall <;> rw [hcall] at hphase <;> cases hphase
  | call answer hphase hcall hphase' =>
      have hreadings := World.call_readings hcall
      cases answer with
      | none => exact hsame (hreadings.trans (List.append_nil _)) (by simp [hphase'])
      | some response => exact hanswer response (Or.inl hphase) hphase' hreadings
  | finish response hphase hfinish hphase' =>
      obtain ⟨wait, t, hwait, hresume⟩ := World.finish_resume hfinish
      have hapi : wait.api = op.api := by
        have hops := hcalling.ops x
        rw [hwait, waitingApi, hop, Option.bind_some, Op.waitingApi, if_pos hphase] at hops
        exact Option.some.inj hops
      have hreadings := World.finish_readings hc hwait hfinish
      rw [hapi] at hreadings
      exact hanswer response (Or.inr hphase) hphase' hreadings
  | report answer response hphase hcall hphase' =>
      have hreadings := World.call_readings hcall
      have hnone : answer.bind Api.takeLastError.readingOf = none := by cases answer <;> rfl
      rw [hnone] at hreadings
      exact hsame (hreadings.trans (List.append_nil _)) (by simp [hphase'])

theorem touch_reading {op op' : Op} (h : op.Touch op') : op'.reading = op.reading := by
  rw [Op.reading, Op.reading, h.kept.1, h.answer]

theorem step_reads {l : Step} (hc : s.world.Callers) (hcalling : s.Calling)
    (hmay : ∀ x op, s.ops.lookup x = some op → op.Permitted)
    (hy : ∀ x op, s.ops.lookup x = some op → op.Yields) (hstep : s.step l = some s') :
    Reads s s' := by
  have hwoken : ∀ (t : Host) (waker : Waker), (t.woken waker).readAt = t.readAt := fun t waker =>
    opAt_woken waker fun _ _ _ _ htouch => touch_reading htouch
  cases step_end hstep with
  | submit x lane semantics api hnew =>
      exact .nothing rfl (opAt_submit hnew rfl (by cases lane <;> rfl))
  | enqueue x op hop hphase =>
      exact .nothing rfl (opAt_same hop rfl (touch_reading (.enqueue hphase)))
  | cancel x op hop hcancelled =>
      exact .nothing rfl (opAt_same hop rfl (touch_reading (.cancel hcancelled)))
  | run env lane x op op' _ hhead hop hrun hspec =>
      exact runOp_reads hc hcalling (hmay x op hop) (hy x op hop) hop hspec (runOp_world hrun hspec)
  | wakeNothing waker => exact .nothing (by rw [readings, woken_world, readings]) (hwoken s waker)
  | woke env waker w answer hlock hcall =>
      refine .nothing ?_ (hwoken _ waker)
      rw [readings, woken_world]
      have hreadings := World.call_readings hcall
      rw [World.wake_answers hcall] at hreadings
      exact hreadings.trans (List.append_nil _)
  | returns x op hop hreturned houtcome =>
      have hat : (s.setOp x { op with returned := true }).readAt = s.readAt :=
        opAt_same hop rfl (touch_reading (.returns houtcome))
      unfold returns
      dsimp only
      split
      · exact .nothing rfl hat
      · exact .nothing rfl hat
  | destroy env lane w hhead hstorage hw | deinit w _ _ hstorage hw =>
      obtain rfl := Option.some.inj hw
      exact .nothing rfl rfl
  | alert env alert w hstorage hw =>
      simp only [World.step, Option.ite_none_left_eq_some, Option.map_eq_some_iff] at hw
      obtain ⟨_, t, hh, rfl⟩ := hw
      exact .nothing (Session.readings_within (Session.handleAlert_within hh)) rfl
  | drain | take | destroyNothing | wake | close | shutdown | shutdownAgain | closing | addDrain
  | addDestroy | release | deinitNothing => exact .nothing rfl rfl

/-! ## One operation -/

theorem wokenOp_kept (waker : Waker) (x : OpId) (op : Op) :
    (wokenOp waker x op).lane = op.lane ∧ (wokenOp waker x op).returned = op.returned := by
  cases waker with
  | handler y =>
      simp only [wokenOp]
      split <;> exact ⟨rfl, rfl⟩
  | closing y =>
      simp only [wokenOp]
      split
      · split <;> exact ⟨rfl, rfl⟩
      · exact ⟨rfl, rfl⟩
  | closer | shutdown => exact ⟨rfl, rfl⟩

/-- An operation keeps its lane, and only the steps that say so return or cancel it. -/
structure Follows (l : Step) (x : OpId) (op op' : Op) : Prop where
  lane : op'.lane = op.lane
  returned : op'.returned = op.returned ∨ l = .returns x
  cancelled : op'.cancelled = op.cancelled ∨ l = .cancel x

theorem Follows.refl (l : Step) (x : OpId) (op : Op) : Follows l x op op :=
  ⟨rfl, Or.inl rfl, Or.inl rfl⟩

theorem step_follows {l : Step} (hstep : s.step l = some s') {x : OpId} {op' : Op}
    (hop' : s'.ops.lookup x = some op') :
    (∃ lane semantics api, l = .submit x lane semantics api ∧ op' = { lane, semantics, api }) ∨
      ∃ op, s.ops.lookup x = some op ∧ Follows l x op op' := by
  have hsame : s'.ops = s.ops → ∃ op, s.ops.lookup x = some op ∧ Follows l x op op' :=
    fun heq => ⟨op', heq ▸ hop', .refl l x op'⟩
  have hset : ∀ {y : OpId} {o o' : Op}, s.ops.lookup y = some o → s'.ops = s.ops.insert y o' →
      (x = y → Follows l x o o') → ∃ op, s.ops.lookup x = some op ∧ Follows l x op op' := by
    intro y o o' ho hops hfollows
    rw [hops] at hop'
    rcases eq_or_ne x y with rfl | hne
    · obtain rfl := Option.some.inj ((Finmap.lookup_insert _).symm.trans hop')
      exact ⟨o, ho, hfollows rfl⟩
    · rw [Finmap.lookup_insert_of_ne _ hne] at hop'
      exact ⟨op', hop', .refl l x op'⟩
  have hwoken : ∀ {t : Host} {waker : Waker}, t.ops = s.ops → s' = t.woken waker →
      ∃ op, s.ops.lookup x = some op ∧ Follows l x op op' := by
    rintro t waker hops rfl
    rw [woken_lookup, hops] at hop'
    obtain ⟨op, hop, rfl⟩ := Option.map_eq_some_iff.mp hop'
    obtain ⟨hlane, hreturned⟩ := wokenOp_kept waker x op
    exact ⟨op, hop, hlane, Or.inl hreturned, Or.inl (wokenOp_fields waker x op).1⟩
  cases step_end hstep with
  | submit y lane semantics api hnew =>
      rw [setOp_ops] at hop'
      rcases eq_or_ne x y with rfl | hne
      · obtain rfl := Option.some.inj ((Finmap.lookup_insert _).symm.trans hop')
        exact Or.inl ⟨lane, semantics, api, rfl, rfl⟩
      · rw [Finmap.lookup_insert_of_ne _ hne] at hop'
        exact Or.inr ⟨op', hop', .refl _ x op'⟩
  | enqueue y op hop => exact Or.inr (hset hop rfl fun _ => ⟨rfl, Or.inl rfl, Or.inl rfl⟩)
  | cancel y op hop =>
      exact Or.inr (hset hop rfl fun heq => ⟨rfl, Or.inl rfl, Or.inr (heq ▸ rfl)⟩)
  | run env lane y op op'' _ hhead hop hrun hspec =>
      obtain ⟨hcancelled, _, hreturned⟩ := hspec.run.flags
      exact Or.inr (hset hop hspec.ops fun _ =>
        ⟨hspec.run.kept.1, Or.inl hreturned, Or.inl hcancelled⟩)
  | wakeNothing waker => exact Or.inr (hwoken rfl rfl)
  | woke env waker w =>
      exact Or.inr (hwoken (t := { s with world := w, lock := none }) rfl rfl)
  | returns y op hop =>
      obtain ⟨o, ho, _, _, hops, _⟩ := returns_spec hstep
      obtain rfl := Option.some.inj (hop.symm.trans ho)
      exact Or.inr (hset hop hops fun heq => ⟨rfl, Or.inr (heq ▸ rfl), Or.inl rfl⟩)
  | drain | take | destroy | destroyNothing | wake | close | shutdown | shutdownAgain | closing
  | addDrain | addDestroy | alert | release | deinit | deinitNothing => exact Or.inr (hsame rfl)

end Host

namespace EventStream

open Swift (eventOf)

variable {platform : Swift.Foundation} {s s' : EventStream}

/-- What has been read and may still be given. -/
def pending (platform : Swift.Foundation) (s : EventStream) : List Swift.TorrentEvent :=
  match s.reading with
  | .performing x => ((s.host.readAt x).bind (eventOf platform)).toList
  | .holding result => (result.event platform).toList
  | _ => []

theorem pending_length (platform : Swift.Foundation) (s : EventStream) :
    (s.pending platform).length ≤ 1 := by
  unfold pending
  split
  · exact Option.length_toList_le
  · exact Option.length_toList_le
  · exact Nat.zero_le 1

/-- The events read so far are those given, then at most one that is lost, then what is pending.
    An event is lost only when the stream is over. -/
def Accounted (platform : Swift.Foundation) (s : EventStream) : Prop :=
  ∃ lost, s.host.readings.filterMap (eventOf platform) = s.given ++ lost ++ s.pending platform ∧
    lost.length ≤ 1 ∧ (lost ≠ [] → s.reading = .idle ∧ s.live = false)

structure Ok (platform : Swift.Foundation) (s : EventStream) : Prop where
  inside : ∃ ls, Lts.exec Host.step {} ls = some s.host
  /-- The reader has one operation in flight at most. -/
  ops : ∀ x op, s.host.ops.lookup x = some op → op.lane = .events →
    (op.returned = true ∨ s.reading = .performing x) ∧
      (op.cancelled = true → s.cancelled = true)
  performing : ∀ x, s.reading = .performing x →
    ∃ op, s.host.ops.lookup x = some op ∧ op.lane = .events ∧ op.returned = false
  isOver : s.live = false → s.isOver = true
  accounted : s.Accounted platform

theorem ok_init (platform : Swift.Foundation) : Ok platform {} where
  inside := ⟨[], rfl⟩
  ops x op hop := by simp at hop
  performing x hx := by cases hx
  isOver h := by cases h
  accounted := ⟨[], rfl, Nat.zero_le 1, fun h => absurd rfl h⟩

theorem Accounted.nothing_lost (h : s.Accounted platform)
    (hbusy : s.reading ≠ .idle ∨ s.live = true) :
    s.host.readings.filterMap (eventOf platform) = s.given ++ s.pending platform := by
  obtain ⟨lost, heq, -, hlost⟩ := h
  have hnil : lost = [] := by
    by_contra hne
    obtain ⟨hidle, hdead⟩ := hlost hne
    rcases hbusy with hbusy | hbusy
    · exact hbusy hidle
    · rw [hdead] at hbusy
      cases hbusy
  rw [heq, hnil, List.append_nil]

theorem Ok.sound (h : s.Ok platform) : s.host.Sound := by
  obtain ⟨ls, hls⟩ := h.inside
  exact Host.run_sound hls

theorem Ok.yields (h : s.Ok platform) {x : OpId} {op : Op}
    (hop : s.host.ops.lookup x = some op) : op.Yields := by
  obtain ⟨ls, hls⟩ := h.inside
  exact Host.run_yields hls hop

theorem Ok.step_reads (h : s.Ok platform) {l : Host.Step} {host : Host}
    (hstep : s.host.step l = some host) : Host.Reads s.host host := by
  obtain ⟨ls, hls⟩ := h.inside
  obtain ⟨ws, hws⟩ := Host.run_inside hls
  exact Host.step_reads (World.run_callers hws).2 (Host.run_calling hls)
    (fun x op hop => Host.run_permitted hls hop) (fun x op hop => h.yields hop) hstep

theorem Ok.inside_step (h : s.Ok platform) {l : Host.Step} {host : Host}
    (hstep : s.host.step l = some host) : ∃ ls, Lts.exec Host.step {} ls = some host := by
  obtain ⟨ls, hls⟩ := h.inside
  exact ⟨ls ++ [l], Lts.exec_snoc_eq_some.mpr ⟨s.host, hls, hstep⟩⟩

/-- Only the operation of the reader can be waiting for an answer. -/
theorem Ok.answering (h : s.Ok platform) {x : OpId} {op : Op}
    (hop : s.host.ops.lookup x = some op) (hlane : op.lane = .events)
    (hphase : op.phase = .calling ∨ op.phase = .waiting) :
    s.reading = .performing x ∧ s.host.readAt x = none := by
  have hrank : op.phase.rank ≤ 5 := by
    rcases hphase with hphase | hphase <;> rw [hphase] <;> decide
  have hok := (h.yields hop).ok
  have hnot : op.returned ≠ true := fun hreturned => by
    rcases hok.outcome_iff.mp (hok.returned hreturned) with hp | hp <;>
      rw [hp] at hrank <;> simp [OpPhase.rank] at hrank
  refine ⟨((h.ops x op hop hlane).1).resolve_left hnot, ?_⟩
  rw [Host.readAt, Host.opAt_eq hop, Op.reading, if_pos hlane, (h.yields hop).answer_none hrank]

/-- A step of the host accounts for what it reads. -/
theorem Ok.accounted_step (h : s.Ok platform) {l : Host.Step} {host : Host}
    (hstep : s.host.step l = some host) : Accounted platform { s with host } := by
  obtain ⟨lost, heq, hle, hlost⟩ := h.accounted
  cases h.step_reads hstep with
  | nothing hreadings hat =>
      refine ⟨lost, ?_, hle, hlost⟩
      have hpending : pending platform { s with host } = s.pending platform := by
        unfold pending
        rw [hat]
      rw [hpending]
      exact (congrArg (List.filterMap _) hreadings).trans heq
  | answer x op response hop hlane hphase hreadings hat =>
      obtain ⟨hreading, hnone⟩ := h.answering hop hlane hphase
      have hbefore := h.accounted.nothing_lost (Or.inl (by rw [hreading]; simp))
      have hpending : s.pending platform = [] := by
        unfold pending
        rw [hreading]
        simp only [hnone, Option.bind_none, Option.toList_none]
      refine ⟨[], ?_, Nat.zero_le 1, fun hne => absurd rfl hne⟩
      have hafter : pending platform { s with host } = (eventOf platform response).toList := by
        unfold pending
        simp only [hreading, hat, Function.update_self, Option.bind_some]
      rw [hafter, List.append_nil]
      show host.readings.filterMap (eventOf platform) = _
      rw [hreadings, List.filterMap_append, hbefore, hpending, List.append_nil]
      cases hevent : eventOf platform response with
      | none => rw [List.filterMap_cons_none hevent]; rfl
      | some event => rw [List.filterMap_cons_some hevent]; rfl

/-- A step of the host that neither submits nor returns an operation of the reader, and cancels
    one only when the task of the consumer is cancelled. -/
theorem Ok.host_step (h : s.Ok platform) {l : Host.Step} {host : Host}
    (hstep : s.host.step l = some host)
    (hsubmit : ∀ x lane semantics api, l = .submit x lane semantics api → lane ≠ .events)
    (hreturns : ∀ x op, l = .returns x → s.host.ops.lookup x = some op → op.lane ≠ .events)
    (hcancel : ∀ x op, l = .cancel x → s.host.ops.lookup x = some op → op.lane = .events →
      s.cancelled = true) : Ok platform { s with host } where
  inside := h.inside_step hstep
  ops x op' hop' hlane := by
    rcases Host.step_follows hstep hop' with ⟨lane, semantics, api, hl, rfl⟩ | ⟨op, hop, hf⟩
    · exact absurd hlane (hsubmit x lane semantics api hl)
    · have hlane' : op.lane = .events := hf.lane.symm.trans hlane
      obtain ⟨hret, hcan⟩ := h.ops x op hop hlane'
      refine ⟨?_, fun hc => ?_⟩
      · rcases hf.returned with heq | hl
        · rw [heq]
          exact hret
        · exact absurd hlane' (hreturns x op hl hop)
      · rcases hf.cancelled with heq | hl
        · exact hcan (heq ▸ hc)
        · exact hcancel x op hl hop hlane'
  performing x hx := by
    obtain ⟨op, hop, hlane, hreturned⟩ := h.performing x hx
    obtain ⟨op', hop', _⟩ := (Host.step_ops hstep).op hop
    refine ⟨op', hop', ?_⟩
    rcases Host.step_follows hstep hop' with ⟨lane, semantics, api, hl, rfl⟩ | ⟨o, ho, hf⟩
    · -- an operation is submitted under a new name
      rw [hl] at hstep
      cases Host.step_end hstep with
      | submit _ _ _ _ hnew =>
          rw [hnew] at hop
          cases hop
    · obtain rfl := Option.some.inj (hop.symm.trans ho)
      refine ⟨hf.lane.trans hlane, ?_⟩
      rcases hf.returned with heq | hl
      · exact heq.trans hreturned
      · exact absurd hlane (hreturns x op hl hop)
  isOver hlive := by
    have hover := h.isOver hlive
    unfold EventStream.isOver at hover ⊢
    rcases Bool.or_eq_true_iff.mp hover with hclosed | hcancelled
    · exact Bool.or_eq_true_iff.mpr (Or.inl (Host.step_closed hstep hclosed))
    · exact Bool.or_eq_true_iff.mpr (Or.inr hcancelled)
  accounted := h.accounted_step hstep

/-- The task of the consumer is cancelled. -/
theorem Ok.mark (h : s.Ok platform) {live : Bool} (hlive : s.live = false → live = false) :
    Ok platform { s with cancelled := true, live } where
  inside := h.inside
  ops x op hop hlane := ⟨(h.ops x op hop hlane).1, fun _ => rfl⟩
  performing := h.performing
  isOver _ := Bool.or_eq_true_iff.mpr (Or.inr rfl)
  accounted := by
    obtain ⟨lost, heq, hle, hlost⟩ := h.accounted
    exact ⟨lost, heq, hle, fun hne => ⟨(hlost hne).1, hlive (hlost hne).2⟩⟩

theorem Ok.onCancel (h : s.Ok platform) (hs : s.onCancel = some s') : s'.Ok platform := by
  obtain ⟨host, hstep, rfl⟩ := Option.map_eq_some_iff.mp hs
  have hclosed := h.host_step hstep (fun _ _ _ _ hl => by cases hl) (fun _ _ hl => by cases hl)
    fun _ _ hl => by cases hl
  exact hclosed.mark fun _ => rfl

/-- `next()` returns nil: what it holds is lost. -/
theorem Ok.finish (h : s.Ok platform) (hbusy : s.reading ≠ .idle)
    (hperforming : ∀ x, s.reading ≠ .performing x) (hover : s.isOver = true) :
    s.finish.Ok platform where
  inside := h.inside
  ops x op hop hlane := ⟨Or.inl (((h.ops x op hop hlane).1).resolve_right (hperforming x)),
    (h.ops x op hop hlane).2⟩
  performing x hx := by cases hx
  isOver _ := hover
  accounted := by
    refine ⟨s.pending platform, ?_, pending_length platform s, fun _ => ⟨rfl, rfl⟩⟩
    show s.host.readings.filterMap _ = s.given ++ s.pending platform ++ []
    rw [List.append_nil]
    exact h.accounted.nothing_lost (Or.inl hbusy)

theorem Ok.submit (h : s.Ok platform) {x : OpId} {host : Host} (hreading : s.reading = .looping)
    (hstep : s.host.step (.submit x .events .cancellable (.nextEvent 500)) = some host) :
    Ok platform { s with host, reading := .performing x } := by
  have hinside := h.inside_step hstep
  cases Host.step_end hstep with
  | submit _ _ _ _ hnew =>
      have hnone := @Host.readAt_setOp s.host x
        { lane := .events, semantics := .cancellable, api := .nextEvent 500 } rfl
      refine ⟨hinside, fun y op hop hlane => ?_, fun y hy => ?_, fun hlive => ?_, ?_⟩
      · rw [Host.setOp_ops] at hop
        rcases eq_or_ne y x with rfl | hne
        · obtain rfl := Option.some.inj ((Finmap.lookup_insert _).symm.trans hop)
          exact ⟨Or.inr rfl, fun hc => by cases hc⟩
        · rw [Finmap.lookup_insert_of_ne _ hne] at hop
          refine ⟨Or.inl (((h.ops y op hop hlane).1).resolve_right ?_), (h.ops y op hop hlane).2⟩
          rw [hreading]
          simp
      · obtain rfl := Reading.performing.inj hy
        exact ⟨_, Finmap.lookup_insert _, rfl, rfl⟩
      · exact h.isOver hlive
      · refine ⟨[], ?_, Nat.zero_le 1, fun hne => absurd rfl hne⟩
        have hbefore := h.accounted.nothing_lost (Or.inl (by rw [hreading]; simp))
        have hpending : s.pending platform = [] := by
          unfold pending
          rw [hreading]
        rw [hpending] at hbefore
        unfold pending
        simp only [hnone, Option.bind_none, Option.toList_none, List.append_nil]
        exact hbefore.trans (List.append_nil _)

/-- `perform` returns to the reader. The operation has ended, so that nothing can happen to what
    it has read before the reader goes on. -/
theorem Ok.returns (h : s.Ok platform) {x : OpId} {host : Host}
    (hreading : s.reading = .performing x) (hstep : s.host.step (.returns x) = some host) :
    Ok platform ({ s with host }.take ((s.host.ops.lookup x).bind Op.outcome)) := by
  obtain ⟨op, hop, hreturned, hsome, hops, _, _⟩ := Host.returns_spec hstep
  obtain ⟨o, ho⟩ := Option.isSome_iff_exists.mp hsome
  obtain ⟨op₀, hop₀, hlane, _⟩ := h.performing x hreading
  obtain rfl := Option.some.inj (hop.symm.trans hop₀)
  have hy := h.yields hop
  have hfits := hy.ok.fits ho
  have hreadings : host.readings = s.host.readings := by
    cases Host.step_end hstep with
    | returns =>
        unfold Host.returns
        dsimp only
        split <;> rfl
  have hread : (s.host.readAt x) = op.yielded.bind ClosureResult.response := by
    rw [Host.readAt, Host.opAt_eq hop, Op.reading, if_pos hlane, Op.answer]
    rcases hy.ok.outcome_iff.mp hsome with hp | hp <;> rw [hp]
  have hbefore : host.readings.filterMap (eventOf platform) =
      s.given ++ ((op.yielded.bind ClosureResult.response).bind (eventOf platform)).toList := by
    have hnone := h.accounted.nothing_lost (Or.inl (by rw [hreading]; simp))
    unfold pending at hnone
    simp only [hreading, hread] at hnone
    rw [hreadings, hnone]
  have hothers : ∀ y op', host.ops.lookup y = some op' → op'.lane = .events →
      op'.returned = true ∧ (op'.cancelled = true → s.cancelled = true) := by
    intro y op' hop' hlane'
    rw [hops] at hop'
    rcases eq_or_ne y x with rfl | hne
    · obtain rfl := Option.some.inj ((Finmap.lookup_insert _).symm.trans hop')
      exact ⟨rfl, (h.ops y op hop hlane).2⟩
    · rw [Finmap.lookup_insert_of_ne _ hne] at hop'
      obtain ⟨hret, hcan⟩ := h.ops y op' hop' hlane'
      refine ⟨hret.resolve_right fun heq => ?_, hcan⟩
      rw [hreading] at heq
      exact hne (Reading.performing.inj heq).symm
  have hinside := h.inside_step hstep
  have hended : (s.host.ops.lookup x).bind Op.outcome = some o := by rw [hop, Option.bind_some, ho]
  rw [hended]
  have hfinish : (s.cancelled = true ∨ host.closed = true) →
      Ok platform (EventStream.finish { s with host }) := fun hover => by
    refine ⟨hinside, fun y op' hop' hlane' => ⟨Or.inl (hothers y op' hop' hlane').1,
      (hothers y op' hop' hlane').2⟩, fun y hy => (by cases hy), fun _ => ?_, ?_⟩
    · rcases hover with hcancelled | hclosed
      · exact Bool.or_eq_true_iff.mpr (Or.inr hcancelled)
      · exact Bool.or_eq_true_iff.mpr (Or.inl hclosed)
    · refine ⟨_, hbefore.trans (List.append_nil _).symm, Option.length_toList_le, fun _ => ?_⟩
      exact ⟨rfl, rfl⟩
  cases o with
  | cancellationError => exact hfinish (Or.inl ((h.ops x op hop hlane).2 hfits.1))
  | sessionShutDown =>
      refine hfinish (Or.inr ?_)
      cases Host.step_end hstep with
      | returns _ op' hop' =>
          obtain rfl := Option.some.inj (hop.symm.trans hop')
          rw [Host.returns, if_pos ⟨hlane, ho⟩]
          rfl
  | result result =>
      refine ⟨hinside, fun y op' hop' hlane' => ⟨Or.inl (hothers y op' hop' hlane').1,
        (hothers y op' hop' hlane').2⟩, fun y hy => (by cases hy), fun hlive => ?_, ?_⟩
      · have hover := h.isOver hlive
        rcases Bool.or_eq_true_iff.mp hover with hclosed | hcancelled
        · exact Bool.or_eq_true_iff.mpr (Or.inl (Host.step_closed hstep hclosed))
        · exact Bool.or_eq_true_iff.mpr (Or.inr hcancelled)
      · refine ⟨[], ?_, Nat.zero_le 1, fun hne => absurd rfl hne⟩
        have hyielded : op.yielded = some result := hfits.2
        rw [hyielded] at hbefore
        rw [List.append_nil]
        exact hbefore

/-- The check after `perform`, when the reader may go on. -/
theorem Ok.give (h : s.Ok platform) {result : ClosureResult}
    (hreading : s.reading = .holding result) :
    (∀ event, result.event platform = some event →
      Ok platform { s with reading := .idle, given := s.given ++ [event] }) ∧
      (result.event platform = none → Ok platform { s with reading := .looping }) := by
  have hbefore := h.accounted.nothing_lost (Or.inl (by rw [hreading]; simp))
  unfold pending at hbefore
  simp only [hreading] at hbefore
  have hops : ∀ x op, s.host.ops.lookup x = some op → op.lane = .events →
      op.returned = true ∧ (op.cancelled = true → s.cancelled = true) := by
    intro x op hop hlane
    obtain ⟨hret, hcan⟩ := h.ops x op hop hlane
    exact ⟨hret.resolve_right (by rw [hreading]; simp), hcan⟩
  constructor
  · intro event hevent
    refine ⟨h.inside, fun x op hop hlane => ⟨Or.inl (hops x op hop hlane).1,
      (hops x op hop hlane).2⟩, fun x hx => (by cases hx), h.isOver, ?_⟩
    refine ⟨[], ?_, Nat.zero_le 1, fun hne => absurd rfl hne⟩
    rw [hevent] at hbefore
    rw [List.append_nil]
    exact hbefore.trans (List.append_nil _).symm
  · intro hevent
    refine ⟨h.inside, fun x op hop hlane => ⟨Or.inl (hops x op hop hlane).1,
      (hops x op hop hlane).2⟩, fun x hx => (by cases hx), h.isOver, ?_⟩
    refine ⟨[], ?_, Nat.zero_le 1, fun hne => absurd rfl hne⟩
    rw [hevent] at hbefore
    rw [List.append_nil]
    exact hbefore

/-- Who has the stream makes no difference to what it gives. -/
theorem Ok.hold (h : s.Ok platform) (held : Bool) : Ok platform { s with held } :=
  ⟨h.inside, h.ops, h.performing, h.isOver, h.accounted⟩

theorem step_ok {l : Step} (h : s.Ok platform) (hstep : s.step platform l = some s') :
    s'.Ok platform := by
  cases l with
  | acquire =>
      simp only [step, Option.ite_none_left_eq_some] at hstep
      obtain rfl := Option.some.inj hstep.2
      exact h.hold true
  | drop =>
      simp only [step, Option.ite_none_right_eq_some] at hstep
      obtain rfl := Option.some.inj hstep.2
      exact h.hold false
  | next =>
      simp only [step, Option.ite_none_left_eq_some, not_or, not_not] at hstep
      obtain ⟨⟨hidle, _⟩, hstep⟩ := hstep
      split at hstep
      · obtain rfl := Option.some.inj hstep
        exact h
      · next hlive =>
          split at hstep
          · exact h.onCancel hstep
          · obtain rfl := Option.some.inj hstep
            have hlive : s.live = true := by simpa using hlive
            have hbefore := h.accounted.nothing_lost (Or.inr hlive)
            have hops : ∀ x op, s.host.ops.lookup x = some op → op.lane = .events →
                op.returned = true := fun x op hop hlane =>
              ((h.ops x op hop hlane).1).resolve_right (by rw [hidle]; simp)
            refine ⟨h.inside, fun x op hop hlane => ⟨Or.inl (hops x op hop hlane),
              (h.ops x op hop hlane).2⟩, fun x hx => (by cases hx), h.isOver, [], ?_,
              Nat.zero_le 1, fun hne => absurd rfl hne⟩
            unfold pending at hbefore
            simp only [hidle] at hbefore
            rw [List.append_nil]
            exact hbefore
  | submit x =>
      simp only [step, Option.ite_none_left_eq_some, not_or, not_not] at hstep
      obtain ⟨⟨hlooping, _⟩, hstep⟩ := hstep
      obtain ⟨host, hhost, rfl⟩ := Option.map_eq_some_iff.mp hstep
      exact h.submit hlooping hhost
  | leave =>
      simp only [step, Option.ite_none_right_eq_some] at hstep
      obtain ⟨⟨hlooping, hover⟩, hstep⟩ := hstep
      obtain rfl := Option.some.inj hstep
      exact h.finish (by rw [hlooping]; simp) (by rw [hlooping]; simp) hover
  | returns =>
      simp only [step] at hstep
      split at hstep
      · next x hperforming =>
          obtain ⟨host, hhost, rfl⟩ := Option.map_eq_some_iff.mp hstep
          exact h.returns hperforming hhost
      · cases hstep
  | give =>
      simp only [step] at hstep
      split at hstep
      · next result hholding =>
          obtain ⟨hevent, hnone⟩ := h.give hholding
          split at hstep
          · next hover =>
              obtain rfl := Option.some.inj hstep
              exact h.finish (by rw [hholding]; simp) (by rw [hholding]; simp) hover
          · split at hstep
            · next event he =>
                obtain rfl := Option.some.inj hstep
                exact hevent event he
            · next he =>
                obtain rfl := Option.some.inj hstep
                exact hnone he
      · cases hstep
  | cancel =>
      simp only [step, Option.ite_none_left_eq_some] at hstep
      obtain ⟨_, hstep⟩ := hstep
      split at hstep
      · obtain rfl := Option.some.inj hstep
        exact h.mark id
      · exact h.onCancel hstep
  | cancelOp =>
      simp only [step] at hstep
      split at hstep
      · simp only [Option.ite_none_right_eq_some] at hstep
        obtain ⟨hcancelled, hstep⟩ := hstep
        obtain ⟨host, hhost, rfl⟩ := Option.map_eq_some_iff.mp hstep
        exact h.host_step hhost (fun _ _ _ _ hl => by cases hl) (fun _ _ hl => by cases hl)
          fun _ _ _ _ _ => hcancelled
      · cases hstep
  | outside l =>
      simp only [step, Option.ite_none_left_eq_some] at hstep
      obtain ⟨hown, hstep⟩ := hstep
      obtain ⟨host, hhost, rfl⟩ := Option.map_eq_some_iff.mp hstep
      refine h.host_step hhost ?_ ?_ ?_
      · rintro x lane semantics api rfl hlane
        simp [isOwn, hlane] at hown
      · rintro x op rfl hop hlane
        simp [isOwn, hop, hlane] at hown
      · rintro x op rfl hop hlane
        simp [isOwn, hop, hlane] at hown

theorem run_ok {ls : List Step} (hrun : Lts.exec (step platform) {} ls = some s) :
    s.Ok platform :=
  Lts.exec_invariant' (Ok platform) (ok_init platform) (fun _ _ _ h hstep => step_ok h hstep) ls s
    hrun

/-- The stream has ended, and nothing is read or given any more. -/
structure Ended (s t : EventStream) : Prop where
  idle : t.reading = .idle
  dead : t.live = false
  given : t.given = s.given
  readings : t.host.readings = s.host.readings

theorem step_ended {t t' : EventStream} {l : Step} (ht : t.Ok platform) (h : Ended s t)
    (hstep : t.step platform l = some t') : Ended s t' := by
  have hhost : ∀ {l : Host.Step} {host : Host}, t.host.step l = some host →
      host.readings = t.host.readings := fun hh => by
    cases ht.step_reads hh with
    | nothing hreadings => exact hreadings
    | answer x op response hop hlane hphase =>
        have hperforming := (ht.answering hop hlane hphase).1
        rw [h.idle] at hperforming
        cases hperforming
  cases l with
  | acquire =>
      simp only [step, Option.ite_none_left_eq_some] at hstep
      obtain rfl := Option.some.inj hstep.2
      exact ⟨h.idle, h.dead, h.given, h.readings⟩
  | drop =>
      simp only [step, Option.ite_none_right_eq_some] at hstep
      obtain rfl := Option.some.inj hstep.2
      exact ⟨h.idle, h.dead, h.given, h.readings⟩
  | next =>
      simp only [step, h.dead, Option.ite_none_left_eq_some, Bool.not_false, if_true,
        Option.some.injEq] at hstep
      exact hstep.2 ▸ h
  | cancel =>
      simp only [step, h.idle, if_true, Option.ite_none_left_eq_some] at hstep
      obtain ⟨_, hstep⟩ := hstep
      obtain rfl := Option.some.inj hstep
      exact ⟨rfl, h.dead, h.given, h.readings⟩
  | outside l =>
      simp only [step, Option.ite_none_left_eq_some] at hstep
      obtain ⟨_, hstep⟩ := hstep
      obtain ⟨host, hh, rfl⟩ := Option.map_eq_some_iff.mp hstep
      exact ⟨h.idle, h.dead, h.given, (hhost hh).trans h.readings⟩
  | submit x | leave | returns | give | cancelOp => simp [step, h.idle] at hstep

/-- The consumer gets the events that `ltkit_session_next_event` hands out, an error for each that
    cannot be read or decoded, in their order and each once. Only the last of them can be
    missing: while it is on its way, or for good once the reader has been closed or the task of
    the consumer cancelled. After the end of the stream nothing is taken from the mailbox. -/
theorem events_given_once {ls : List Step} (hrun : Lts.exec (step platform) {} ls = some s) :
    (∃ lost pending, s.host.readings.filterMap (eventOf platform) = s.given ++ lost ++ pending ∧
      lost.length + pending.length ≤ 1 ∧ (s.reading = .idle → pending = []) ∧
      (lost ≠ [] → s.reading = .idle ∧ s.live = false)) ∧
    (s.live = false → s.host.closed = true ∨ s.cancelled = true) ∧
    (s.reading = .idle → s.live = false → ∀ more t, Lts.exec (step platform) s more = some t →
      t.given = s.given ∧ t.host.readings = s.host.readings) := by
  have h := run_ok hrun
  refine ⟨?_, fun hlive => Bool.or_eq_true_iff.mp (h.isOver hlive), fun hidle hdead more t ht => ?_⟩
  · obtain ⟨lost, heq, hle, hlost⟩ := h.accounted
    have hnone : s.reading = .idle → s.pending platform = [] := fun hidle => by
      unfold pending
      rw [hidle]
    refine ⟨lost, s.pending platform, heq, ?_, hnone, hlost⟩
    by_cases hnil : lost = []
    · rw [hnil]
      exact (Nat.zero_add _).trans_le (pending_length platform s)
    · rw [hnone (hlost hnil).1]
      exact hle
  · have hended := Lts.exec_invariant' (fun u : EventStream => u.Ok platform ∧ Ended s u)
      ⟨h, hidle, hdead, rfl, rfl⟩
      (fun u l u' hu hstep => ⟨step_ok hu.1 hstep, step_ended hu.1 hu.2 hstep⟩) more t ht
    exact ⟨hended.2.given, hended.2.readings⟩

/-- A torrent is added, its first event is read and given, and the task is cancelled while the
    next read waits. -/
def cancelledRead : List Step :=
  let steps (n : Nat) (lane : Lane) : List Step :=
    List.replicate n (.outside (.run sampleEnvironment lane))
  List.flatten
    [[.outside (.submit 0 .native .mutation (.add sampleRequest)), .outside (.enqueue 0)],
      steps 8 .native, [.next, .submit 1, .outside (.enqueue 1)], steps 8 .events,
      [.returns, .give, .next, .submit 2, .outside (.enqueue 2)], steps 4 .events,
      [.cancel, .cancelOp], steps 4 .events, [.returns]]

theorem cancelledRead_given :
    ∃ s, Lts.exec (step asciiFoundation) {} cancelledRead = some s ∧ s.given.length = 1 ∧
      s.host.closed = true ∧ ∃ lost pending,
        s.host.readings.filterMap (eventOf asciiFoundation) = s.given ++ lost ++ pending ∧
          lost.length + pending.length ≤ 1 := by
  have hrun : (Lts.exec (step asciiFoundation) {} cancelledRead).any
      (fun s => decide (s.given.length = 1) && s.host.closed) = true := by decide +kernel
  obtain ⟨s, hs, hend⟩ := (Option.any_eq_true _ _).mp hrun
  obtain ⟨hgiven, hclosed⟩ := (Bool.and_eq_true _ _).mp hend
  obtain ⟨lost, pending, heq, hle, -⟩ := (events_given_once hs).1
  exact ⟨s, hs, of_decide_eq_true hgiven, hclosed, lost, pending, heq, hle⟩

end EventStream

end LibtorrentKit
