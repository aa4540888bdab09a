/-
  The text of a native error. A call that fails may leave a text in `last_error`; when the
  closure of a native operation finds that its call has failed, it takes the text with a call of
  its own. The slot is one for the whole session, and the event lane reads in between.

  `Recorded` runs the host and notes, for every operation, the text that its native call leaves
  in an empty slot. `Owned` is the invariant: the slot is empty but between the failure of a
  native operation and its take, and then it has the text of that operation. It is kept as long
  as no event read fails to copy its event and every take can copy its text.
-/
import LibtorrentKit.Session.Messages
import LibtorrentKit.Swift.Calls
import LibtorrentKit.Swift.Diagnostics

namespace LibtorrentKit

/-- The value of `ltkit_error_code_t`. -/
def Code.rawValue : Code → Int
  | .ok => 0
  | .unknown => 1
  | .invalidArgument => 2
  | .invalidSource => 3
  | .invalidIdentifier => 4
  | .duplicateIdentifier => 5
  | .metadataUnavailable => 6
  | .invalidFileIndex => 7
  | .invalidPieceIndex => 8
  | .invalidOffset => 9
  | .corruptResumeData => 10
  | .timedOut => 11
  | .nativeFailure => 12
  | .sessionShutDown => 13
  | .allocationLimit => 14
  | .pathViolation => 15
  | .completionFailed => 16

namespace Swift

/-- A text of the native layer; there is none for the null buffer. -/
def nativeText (text : String) : Option String := if text = "" then none else some text

/-- `takeNativeError`, from the answer of `ltkit_session_take_last_error`. -/
def takeNativeError (answer : Option Response) : Option String :=
  answer.bind fun response =>
    if response.code = .ok then
      match response.output with
      | .text text => nativeText text
      | _ => none
    else none

/-- `check`, once the closure has the answers of the native layer: the error that it throws. -/
def check (platform : Foundation) (operation : Operation) : ClosureResult → Option TorrentError
  | .nothing => none
  | .native response lastError =>
      if response.code = .ok then none
      else some (.native platform operation response.code.rawValue (takeNativeError lastError))

end Swift

/-! ## Records -/

namespace Host

/-- The native session, with an empty slot. -/
def emptied (s : Host) : World := { s.world with session := s.world.session.setError "" }

/-- The text that the native call of `x` leaves in an empty slot, when it returns now. -/
def recordedBy (s : Host) (env : Environment) (x : OpId) (op : Op) : Option (OpId × String) :=
  match op.phase with
  | .calling =>
      (s.emptied.call env (x + 1) op.api).bind fun r =>
        r.2.map fun _ => (x, r.1.session.lastError)
  | .waiting => (s.emptied.finish env (x + 1)).map fun r => (x, r.1.session.lastError)
  | _ => none

/-- The operation whose native call returns with a step, and the text that it records. -/
def recording (s : Host) : Step → Option (OpId × String)
  | .run env lane =>
      match (s.lanes lane).queue.head? with
      | some (.op x) => (s.ops.lookup x).bind fun op => s.recordedBy env x op
      | _ => none
  | _ => none

/-- The native call that an operation is in or makes next can copy its text or its event, if it
gets to one. -/
def copies (s : Host) (env : Environment) (op : Op) : Bool :=
  match op.phase with
  | .calling => op.lane != .events || s.world.session.readable env
  | .waiting => op.lane != .events || s.world.session.readable env
  | .reporting _ => copyBuffer env s.world.session.lastError.isEmpty
  | _ => true

/-- No event read fails to copy its event, and no take its text. -/
def careful (s : Host) : Step → Bool
  | .run env lane =>
      match (s.lanes lane).queue.head? with
      | some (.op x) => (s.ops.lookup x).all fun op => s.copies env op
      | _ => true
  | _ => true

end Host

/-- The host, with the texts that the calls of the operations have recorded. -/
structure Recorded where
  host : Host := {}
  record : OpId → String := fun _ => ""

namespace Recorded

def noted (record : OpId → String) : Option (OpId × String) → OpId → String
  | some (x, text) => Function.update record x text
  | none => record

/-- A step of the host. -/
def step (s : Recorded) (l : Host.Step) : Option Recorded :=
  (s.host.step l).map fun host => { host, record := noted s.record (s.host.recording l) }

end Recorded

/-! ## The slot -/

namespace Op

/-- The answer of a native operation that has not taken its text yet. -/
def owes (op : Op) : Option Response :=
  if op.lane = .native then
    match op.phase with
    | .answered response => some response
    | .reporting response => some response
    | _ => none
  else none

/-- What the closure of a native operation has yielded. -/
def told (op : Op) : Option ClosureResult := if op.lane = .native then op.yielded else none

/-- The closure yields once; only the event reader's closes, and only the others ask for the
text. -/
structure Plain (op : Op) : Prop where
  yielded : op.phase.rank < 8 → op.yielded = none
  closing : op.lane = .native → ∀ response, op.phase ≠ .closing response
  reporting : ∀ response, op.phase = .reporting response → op.lane = .native

theorem plain_new (lane : Lane) (semantics : Semantics) (api : Api) :
    Plain { lane, semantics, api } := ⟨fun _ => rfl, by simp, by simp⟩

theorem Run.plain {op op' : Op} (h : op.Run op') (hp : op.Plain) : op'.Plain := by
  have hearly : ∀ {phase : OpPhase}, op.phase = phase → phase.rank < 8 → op.yielded = none :=
    fun hphase hrank => hp.yielded (by rw [hphase]; exact hrank)
  cases h with
  | close response hphase hlane =>
    refine ⟨fun _ => hearly hphase (Nat.lt_succ_of_lt (Nat.lt_succ_self 6)), fun hl => ?_, by simp⟩
    rw [hlane] at hl
    cases hl
  | report response hphase hlane =>
    exact ⟨fun _ => hearly hphase (Nat.lt_succ_of_lt (Nat.lt_succ_self 6)), by simp,
      fun _ _ => hlane⟩
  | yield | skip => exact ⟨by simp [Op.yield, OpPhase.rank], by simp [Op.yield], by simp [Op.yield]⟩
  | answer response hphase =>
    refine ⟨fun _ => ?_, by simp, by simp⟩
    rcases hphase with hphase | hphase
    · exact hearly hphase (by decide)
    · exact hearly hphase (by decide)
  | refuse | shutDown | decide | resume | finish =>
    exact ⟨by simp [OpPhase.rank], by simp, by simp⟩
  | begin hphase | hold hphase | start hphase | wait hphase =>
    exact ⟨fun _ => hearly hphase (by decide), by simp, by simp⟩

theorem Touch.plain {op op' : Op} (h : op.Touch op') (hp : op.Plain) : op'.Plain := by
  cases h with
  | enqueue hphase => exact ⟨fun _ => hp.yielded (by rw [hphase]; decide), by simp, by simp⟩
  | closed response hphase =>
    exact ⟨by simp [Op.yield, OpPhase.rank], by simp [Op.yield], by simp [Op.yield]⟩
  | cancel | woken | returns => exact ⟨hp.yielded, hp.closing, hp.reporting⟩

theorem events_attributes {op : Op} (h : op.lane = .events) : op.owes = none ∧ op.told = none := by
  simp [owes, told, h]

theorem owes_native {op : Op} {response : Response} (h : op.owes = some response) :
    op.lane = .native ∧ op.phase.active = true ∧
      (op.phase = .answered response ∨ op.phase = .reporting response) := by
  unfold owes at h
  split at h
  · next hlane =>
    split at h
    · next hphase =>
      cases h
      exact ⟨hlane, by rw [hphase]; rfl, .inl hphase⟩
    · next hphase =>
      cases h
      exact ⟨hlane, by rw [hphase]; rfl, .inr hphase⟩
    · cases h
  · cases h

/-- What other threads do to an operation concerns no text. -/
theorem Touch.attributes {op op' : Op} (h : op.Touch op') (hp : op.Plain) :
    op'.owes = op.owes ∧ op'.told = op.told := by
  cases h with
  | enqueue hphase => exact ⟨by simp [owes, hphase], rfl⟩
  | closed response hphase =>
    have hlane : op.lane ≠ .native := fun hl => hp.closing hl response hphase
    exact ⟨by simp [owes, Op.yield, hlane], by simp [told, Op.yield, hlane]⟩
  | cancel | woken | returns => exact ⟨rfl, rfl⟩

end Op

namespace Host

theorem run_plain {ls : List Step} {s : Host} (hrun : Lts.exec step {} ls = some s) {x : OpId}
    {op : Op} (hop : s.ops.lookup x = some op) : op.Plain :=
  Lts.exec_invariant' (fun s : Host => ∀ x op, s.ops.lookup x = some op → op.Plain)
    (fun x op hop => by simp at hop)
    (fun s l s' hs h => (step_ops h).keeps Op.plain_new
      (fun hstep hp => hstep.elim (fun hrun => hrun.plain hp) fun htouch => htouch.plain hp) hs)
    ls s hrun x op hop

/-! ## Native calls and the slot -/

theorem call_enter {w w' : World} {env : Environment} {c : CallId} {api : Api}
    {answer : Option Response} (h : w.call env c api = some (w', answer)) :
    ∃ t, (w.session.record (.called c api)).enter env api = some (t, answer) ∧
      w'.session.lastError = t.lastError := by
  unfold World.call at h
  split at h
  · next w₁ r hstep henter =>
    obtain ⟨rfl, rfl⟩ := Prod.mk.inj (Option.some.inj h)
    refine ⟨r.1, henter, ?_⟩
    simp only [World.step, Option.ite_none_left_eq_some, Option.map_eq_some_iff, henter,
      Option.some.injEq, exists_eq_left'] at hstep
    obtain ⟨-, rfl⟩ := hstep
    cases r.2 <;> rfl
  · cases h

theorem finish_resume {w w' : World} {env : Environment} {c : CallId} {response : Response}
    (h : w.finish env c = some (w', response)) :
    ∃ wait t, w.calls c = some wait ∧
      w.session.resume env wait.generation wait.api = some (t, response) ∧
        w'.session.lastError = t.lastError := by
  unfold World.finish at h
  split at h
  · cases h
  · next wait hwait =>
    split at h
    · next w₁ r hstep hresume =>
      obtain ⟨rfl, rfl⟩ := Prod.mk.inj (Option.some.inj h)
      refine ⟨wait, r.1, hwait, hresume, ?_⟩
      simp only [World.step, hwait, Option.ite_none_left_eq_some, hresume, Option.map_some,
        Option.some.injEq] at hstep
      obtain ⟨-, rfl⟩ := hstep
      rfl
    · cases h

theorem isOperation_ne {api : Api} (h : isOperation api = true) :
    (∀ timeoutMs, api ≠ .nextEvent timeoutMs) ∧ api ≠ .takeLastError := by
  constructor
  · rintro timeoutMs rfl
    cases h
  · rintro rfl
    cases h

theorem call_keepsError {w w' : World} {env : Environment} {c : CallId} {api : Api}
    {answer : Option Response} (hapi : isOperation api = true)
    (h : w.call env c api = some (w', answer)) (hunfailed : Session.Unfailed answer) :
    w'.session.lastError = w.session.lastError := by
  obtain ⟨t, henter, heq⟩ := call_enter h
  obtain ⟨hread, htake⟩ := isOperation_ne hapi
  rw [heq, Session.enter_keepsError hread htake henter hunfailed]
  rfl

theorem finish_keepsError {w w' : World} {env : Environment} {c : CallId} {wait : Wait}
    {response : Response} (hwait : w.calls c = some wait) (hapi : isOperation wait.api = true)
    (h : w.finish env c = some (w', response)) (hok : response.code = .ok) :
    w'.session.lastError = w.session.lastError := by
  obtain ⟨wait', t, hwait', hresume, heq⟩ := finish_resume h
  obtain rfl := Option.some.inj (hwait.symm.trans hwait')
  rw [heq, Session.resume_keepsError (isOperation_ne hapi).1 hresume hok]

theorem read_keepsError {w w' : World} {env : Environment} {c : CallId} {timeoutMs : Int}
    {answer : Option Response} (hreadable : w.session.readable env = true)
    (h : w.call env c (.nextEvent timeoutMs) = some (w', answer)) :
    w'.session.lastError = w.session.lastError := by
  obtain ⟨t, henter, heq⟩ := call_enter h
  have hrecord : (w.session.record (.called c (.nextEvent timeoutMs))).readable env = true :=
    hreadable
  rw [heq, Session.nextEvent_keepsError hrecord henter]
  rfl

theorem finishRead_keepsError {w w' : World} {env : Environment} {c : CallId} {wait : Wait}
    {timeoutMs : Int} {response : Response} (hreadable : w.session.readable env = true)
    (hwait : w.calls c = some wait) (hapi : wait.api = .nextEvent timeoutMs)
    (h : w.finish env c = some (w', response)) : w'.session.lastError = w.session.lastError := by
  obtain ⟨wait', t, hwait', hresume, heq⟩ := finish_resume h
  obtain rfl := Option.some.inj (hwait.symm.trans hwait')
  rw [hapi] at hresume
  rw [heq, Session.resumeNextEvent_keepsError hreadable hresume]

/-- The take empties the slot, and gets its text when it can copy it. -/
theorem take_spec {w w' : World} {env : Environment} {c : CallId} {answer : Option Response}
    (hcopy : copyBuffer env w.session.lastError.isEmpty = true)
    (h : w.call env c .takeLastError = some (w', answer)) :
    w'.session.lastError = "" ∧
      Swift.takeNativeError answer = Swift.nativeText w.session.lastError := by
  obtain ⟨t, henter, heq⟩ := call_enter h
  simp only [Session.enter, Session.ltkitSessionTakeLastError, Option.some.injEq] at henter
  have hcopy' : copyBuffer env (w.session.record (.called c .takeLastError)).lastError.isEmpty
      = true := hcopy
  rw [if_pos hcopy'] at henter
  cases henter
  exact ⟨heq, rfl⟩

theorem emptied_eq {s : Host} (h : s.world.session.lastError = "") : s.emptied = s.world := by
  rw [emptied, Session.setError, ← h]

/-- What a step does to the slot, and to the operations that have to do with it; `note` is the
text that it records. -/
inductive SlotStep (s s' : Host) (note : Option (OpId × String)) : Prop
  /-- Nothing; a note is about an event read. -/
  | idle (howes : s'.opAt Op.owes = s.opAt Op.owes) (htold : s'.opAt Op.told = s.opAt Op.told)
      (herror : s'.world.session.lastError = s.world.session.lastError)
      (hnote : ∀ x text, note = some (x, text) →
        s.opAt Op.owes x = none ∧ s.opAt Op.told x = none)
  /-- The call of a native operation returns. -/
  | answer (x : OpId) (response : Response)
      (hnobody : ∀ y, s.opAt Op.owes y = none) (hnone : s.opAt Op.told x = none)
      (howes : s'.opAt Op.owes = Function.update (s.opAt Op.owes) x (some response))
      (htold : s'.opAt Op.told = s.opAt Op.told)
      (hnote : s.world.session.lastError = "" → note = some (x, s'.world.session.lastError))
      (hok : response.code = .ok → s'.world.session.lastError = s.world.session.lastError)
  /-- The closure of a native operation has succeeded. -/
  | succeed (x : OpId) (response : Response) (hx : s.opAt Op.owes x = some response)
      (hok : response.code = .ok) (hnote : note = none)
      (howes : s'.opAt Op.owes = Function.update (s.opAt Op.owes) x none)
      (htold : s'.opAt Op.told =
        Function.update (s.opAt Op.told) x (some (.native response none)))
      (herror : s'.world.session.lastError = s.world.session.lastError)
  /-- The closure of a native operation takes the text. -/
  | take (x : OpId) (response : Response) (answer : Option Response)
      (hx : s.opAt Op.owes x = some response) (hnote : note = none)
      (howes : s'.opAt Op.owes = Function.update (s.opAt Op.owes) x none)
      (htold : s'.opAt Op.told =
        Function.update (s.opAt Op.told) x (some (.native response answer)))
      (herror : s'.world.session.lastError = "")
      (hanswer : Swift.takeNativeError answer = Swift.nativeText s.world.session.lastError)

/-! ## Steps -/

/-- What holds after every run, as far as the slot is concerned. -/
structure Tidy (s : Host) : Prop where
  ordered : s.Ordered
  calling : s.Calling
  plain : ∀ x op, s.ops.lookup x = some op → op.Plain
  permitted : ∀ x op, s.ops.lookup x = some op → op.Permitted

theorem run_tidy {ls : List Step} {s : Host} (hrun : Lts.exec step {} ls = some s) : s.Tidy where
  ordered := run_ordered hrun
  calling := run_calling hrun
  plain _ _ hop := run_plain hrun hop
  permitted _ _ hop := run_permitted hrun hop

/-- The block at the head of the native lane is the only one that can owe. -/
theorem Tidy.nobody {s : Host} (h : s.Tidy) {x : OpId} {op : Op}
    (hhead : (s.lanes .native).queue.head? = some (.op x)) (hop : s.ops.lookup x = some op)
    (hphase : op.owes = none) (y : OpId) : s.opAt Op.owes y = none := by
  cases hy : s.ops.lookup y with
  | none => rw [opAt, hy, Option.bind_none]
  | some op' =>
    rw [opAt_eq hy]
    cases howes : op'.owes with
    | none => rfl
    | some response =>
      obtain ⟨hlane, hactive, -⟩ := Op.owes_native howes
      have hhead' := h.ordered.head y op' hy hactive
      rw [hlane, hhead] at hhead'
      obtain rfl := Block.op.inj (Option.some.inj hhead')
      obtain rfl := Option.some.inj (hop.symm.trans hy)
      exact howes.symm.trans hphase

theorem Tidy.lane {s : Host} (h : s.Tidy) {x : OpId} {op : Op} {lane : Lane}
    (hhead : (s.lanes lane).queue.head? = some (.op x)) (hop : s.ops.lookup x = some op) :
    op.lane = lane :=
  ((h.ordered.queued_iff hop lane).mp (List.mem_of_mem_head? hhead)).1

/-- The closure of a native operation looks at the code of its answer. -/
theorem runOp_answered {s s' : Host} {env : Environment} {x : OpId} {op : Op} {response : Response}
    (h : s.runOp env x op = some s') (hphase : op.phase = .answered response)
    (hlane : op.lane = .native) :
    response.code = .ok ∧ s' = s.setOp x (op.yield (.native response none)) ∨
      s' = s.setOp x { op with phase := .reporting response } := by
  simp only [runOp, hphase, hlane] at h
  split at h
  · next hok => exact .inl ⟨hok, (Option.some.inj h).symm⟩
  · refine .inr ?_
    rw [← Option.some.inj h, hlane]

theorem setOp_unique {s s' : Host} {x : OpId} {op op' : Op} (h : s'.ops = s.ops.insert x op)
    (heq : s' = s.setOp x op') : op = op' := by
  have hlookup : s'.ops.lookup x = some op := by rw [h, Finmap.lookup_insert]
  have hlookup' : s'.ops.lookup x = some op' := by rw [heq, setOp, Finmap.lookup_insert]
  exact Option.some.inj (hlookup.symm.trans hlookup')

/-- The wait of an operation is that of its own call. -/
theorem Tidy.wait {s : Host} (h : s.Tidy) {x : OpId} {op : Op} (hop : s.ops.lookup x = some op)
    (hphase : op.phase = .waiting) :
    ∃ wait, s.world.calls (x + 1) = some wait ∧ wait.api = op.api := by
  have hmap := h.calling.ops x
  rw [waitingApi, hop, Option.bind_some, Op.waitingApi, if_pos hphase] at hmap
  exact Option.map_eq_some_iff.mp hmap

theorem careful_eq {s : Host} {env : Environment} {lane : Lane} {x : OpId} {op : Op}
    (hhead : (s.lanes lane).queue.head? = some (.op x)) (hop : s.ops.lookup x = some op) :
    s.careful (.run env lane) = s.copies env op := by
  simp only [careful, hhead, hop, Option.all_some]

/-- An event read leaves the slot alone. -/
theorem events_slot {s s' : Host} {env : Environment} {x : OpId} {op op' : Op} (ht : s.Tidy)
    (hhead : (s.lanes .events).queue.head? = some (.op x)) (hop : s.ops.lookup x = some op)
    (hrun : s.runOp env x op = some s') (hspec : RunOp s s' x op op')
    (hcareful : s.careful (.run env .events) = true) :
    s'.world.session.lastError = s.world.session.lastError := by
  have hlane := ht.lane hhead hop
  have hapi : op.api = .nextEvent 500 := by
    have hmay := ht.permitted x op hop
    simpa only [Op.Permitted, hlane] using hmay
  have hreads : op.phase = .calling ∨ op.phase = .waiting →
      s.world.session.readable env = true := by
    rw [careful_eq hhead hop] at hcareful
    rintro (hphase | hphase) <;> simpa [copies, hphase, hlane] using hcareful
  cases runOp_world hrun hspec with
  | none _ _ hw => rw [hw]
  | call answer hphase hcall _ =>
    rw [hapi] at hcall
    exact read_keepsError (hreads (.inl hphase)) hcall
  | finish response hphase hfinish _ =>
    obtain ⟨wait, hwait, hwapi⟩ := ht.wait hop hphase
    exact finishRead_keepsError (hreads (.inr hphase)) hwait (hwapi.trans hapi) hfinish
  | report answer response hphase _ _ =>
    have hnative := (ht.plain x op hop).reporting response hphase
    rw [hlane] at hnative
    cases hnative

theorem recording_eq {s : Host} {env : Environment} {lane : Lane} {x : OpId} {op : Op}
    (hhead : (s.lanes lane).queue.head? = some (.op x)) (hop : s.ops.lookup x = some op) :
    s.recording (.run env lane) = s.recordedBy env x op := by
  simp only [recording, hhead, hop, Option.bind_some]

/-- What is recorded is about the operation that runs. -/
theorem recording_head {s : Host} {env : Environment} {lane : Lane} {x y : OpId} {op : Op}
    {text : String} (hhead : (s.lanes lane).queue.head? = some (.op x))
    (hop : s.ops.lookup x = some op) (h : s.recording (.run env lane) = some (y, text)) :
    y = x ∧ (op.phase = .calling ∨ op.phase = .waiting) := by
  rw [recording_eq hhead hop, recordedBy] at h
  split at h
  · next hphase =>
    obtain ⟨r, -, hr⟩ := Option.bind_eq_some_iff.mp h
    obtain ⟨-, -, heq⟩ := Option.map_eq_some_iff.mp hr
    cases heq
    exact ⟨rfl, .inl hphase⟩
  · next hphase =>
    obtain ⟨r, -, heq⟩ := Option.map_eq_some_iff.mp h
    cases heq
    exact ⟨rfl, .inr hphase⟩
  · cases h

/-- An operation whose call has not returned owes nothing and has told nothing. -/
theorem unanswered {op : Op} (hp : op.Plain) (hphase : op.phase = .calling ∨ op.phase = .waiting) :
    op.owes = none ∧ op.told = none := by
  have hyielded : op.yielded = none := by
    rcases hphase with hphase | hphase <;> exact hp.yielded (by rw [hphase]; decide)
  constructor
  · rcases hphase with hphase | hphase <;> simp [Op.owes, hphase]
  · simp [Op.told, hyielded]

theorem note_of_run {s : Host} {env : Environment} {lane : Lane} {x : OpId} {op : Op}
    (ht : s.Tidy) (hhead : (s.lanes lane).queue.head? = some (.op x))
    (hop : s.ops.lookup x = some op) (y : OpId) (text : String)
    (h : s.recording (.run env lane) = some (y, text)) :
    s.opAt Op.owes y = none ∧ s.opAt Op.told y = none := by
  obtain ⟨rfl, hphase⟩ := recording_head hhead hop h
  rw [opAt_eq hop, opAt_eq hop]
  exact unanswered (ht.plain _ op hop) hphase

/-- The call of a native operation returns. -/
theorem answer_slot {s s' : Host} {env : Environment} {x : OpId} {op op' : Op}
    {response : Response} (ht : s.Tidy) (hhead : (s.lanes .native).queue.head? = some (.op x))
    (hop : s.ops.lookup x = some op) (hspec : RunOp s s' x op op')
    (hphase : op.phase = .calling ∨ op.phase = .waiting) (hphase' : op'.phase = .answered response)
    (hnote : s.world.session.lastError = "" →
      s.recording (.run env .native) = some (x, s'.world.session.lastError))
    (hok : response.code = .ok → s'.world.session.lastError = s.world.session.lastError) :
    s.SlotStep s' (s.recording (.run env .native)) := by
  have hlane := ht.lane hhead hop
  obtain ⟨howes, htold⟩ := unanswered (ht.plain x op hop) hphase
  have howes' : op'.owes = some response := by
    rw [Op.owes, hspec.run.kept.1, if_pos hlane, hphase']
  have htold' : op'.told = op.told := by
    have hyielded : op'.yielded = none := by
      refine (hspec.run.plain (ht.plain x op hop)).yielded ?_
      rw [hphase', OpPhase.rank]
      decide
    rw [htold, Op.told, hyielded]
    split <;> rfl
  exact .answer x response (ht.nobody hhead hop howes) (by rw [opAt_eq hop, htold])
    ((opAt_insert hspec.ops).trans (by rw [howes'])) (opAt_same hop hspec.ops htold') hnote hok

/-- An operation that neither calls nor takes. -/
theorem quiet_slot {s s' : Host} {env : Environment} {x : OpId} {op op' : Op} (ht : s.Tidy)
    (hhead : (s.lanes .native).queue.head? = some (.op x)) (hop : s.ops.lookup x = some op)
    (hrun : s.runOp env x op = some s') (hspec : RunOp s s' x op op')
    (huses : op.phase.usesPointer = false) : s.SlotStep s' (s.recording (.run env .native)) := by
  have hlane := ht.lane hhead hop
  have hworld : s'.world.session.lastError = s.world.session.lastError := by rw [hspec.world huses]
  have hidle : op'.owes = op.owes → op'.told = op.told →
      s.SlotStep s' (s.recording (.run env .native)) := fun howes htold =>
    .idle (opAt_same hop hspec.ops howes) (opAt_same hop hspec.ops htold) hworld
      (note_of_run ht hhead hop)
  have hnone : s.recording (.run env .native) = none := by
    rw [recording_eq hhead hop, recordedBy]
    split
    · next hphase =>
      rw [hphase] at huses
      cases huses
    · next hphase =>
      rw [hphase] at huses
      cases huses
    · rfl
  cases hspec.run with
  | report response hphase => exact hidle (by simp [Op.owes, hphase]) rfl
  | yield response lastError hphase =>
    rcases hphase with hphase | hphase
    · have hx : op.owes = some response := by simp [Op.owes, hlane, hphase]
      rcases runOp_answered hrun hphase hlane with ⟨hok, heq⟩ | heq
      · have hsame := setOp_unique hspec.ops heq
        have howes' : (op.yield (.native response lastError)).owes = none := by
          simp [Op.owes, Op.yield, hlane]
        have htold' : (op.yield (.native response lastError)).told
            = some (.native response none) := by
          rw [hsame]
          simp [Op.told, Op.yield, hlane]
        refine .succeed x response ((opAt_eq hop).trans hx) hok hnone ?_ ?_ hworld
        · rw [opAt_insert hspec.ops, howes']
        · rw [opAt_insert hspec.ops, htold']
      · have hphase' := congrArg Op.phase (setOp_unique hspec.ops heq)
        cases hphase'
    · rw [hphase] at huses
      cases huses
  | skip hphase hevents =>
    rw [hlane] at hevents
    cases hevents
  | close response hphase hevents =>
    rw [hlane] at hevents
    cases hevents
  | wait hphase =>
    rw [hphase] at huses
    cases huses
  | answer response hphase =>
    rcases hphase with hphase | hphase <;> rw [hphase] at huses <;> cases huses
  | refuse hphase | begin hphase | hold hphase | shutDown hphase | start hphase | decide _ hphase
  | resume _ hphase | finish hphase => exact hidle (by simp [Op.owes, hphase]) rfl

/-- The block of a native operation takes the text. -/
theorem take_slot {s s' : Host} {env : Environment} {x : OpId} {op op' : Op} {response : Response}
    {answer : Option Response} (ht : s.Tidy)
    (hhead : (s.lanes .native).queue.head? = some (.op x)) (hop : s.ops.lookup x = some op)
    (hspec : RunOp s s' x op op') (hcareful : s.careful (.run env .native) = true)
    (hphase : op.phase = .reporting response)
    (hcall : s.world.call env (x + 1) .takeLastError = some (s'.world, answer))
    (hphase' : op'.phase = .executed (.native response answer)) :
    s.SlotStep s' (s.recording (.run env .native)) := by
  have hlane := ht.lane hhead hop
  have hcopy : copyBuffer env s.world.session.lastError.isEmpty = true := by
    rw [careful_eq hhead hop, copies, hphase] at hcareful
    exact hcareful
  obtain ⟨hempty, hanswer⟩ := take_spec hcopy hcall
  have hx : op.owes = some response := by simp [Op.owes, hlane, hphase]
  have hnone : s.recording (.run env .native) = none := by
    rw [recording_eq hhead hop, recordedBy, hphase]
  have howes' : op'.owes = none := by simp [Op.owes, hphase']
  have htold' : op'.told = some (.native response answer) := by
    cases hspec.run with
    | yield response' lastError hfrom =>
      cases hphase'
      simp [Op.told, Op.yield, hlane]
    | _ => cases hphase'
  refine .take x response answer ((opAt_eq hop).trans hx) hnone ?_ ?_ hempty hanswer
  · rw [opAt_insert hspec.ops, howes']
  · rw [opAt_insert hspec.ops, htold']

theorem run_slot {s s' : Host} {env : Environment} {lane : Lane} {x : OpId} {op op' : Op}
    (ht : s.Tidy) (hhead : (s.lanes lane).queue.head? = some (.op x))
    (hop : s.ops.lookup x = some op) (hrun : s.runOp env x op = some s')
    (hspec : RunOp s s' x op op') (hcareful : s.careful (.run env lane) = true) :
    s.SlotStep s' (s.recording (.run env lane)) := by
  have hlane := ht.lane hhead hop
  cases lane with
  | events =>
    obtain ⟨howes, htold⟩ := Op.events_attributes hlane
    obtain ⟨howes', htold'⟩ := Op.events_attributes (hspec.run.kept.1.trans hlane)
    exact .idle (opAt_same hop hspec.ops (howes'.trans howes.symm))
      (opAt_same hop hspec.ops (htold'.trans htold.symm))
      (events_slot ht hhead hop hrun hspec hcareful) (note_of_run ht hhead hop)
  | native =>
    have hapi : isOperation op.api = true := by
      have hmay := ht.permitted x op hop
      simpa only [Op.Permitted, hlane] using hmay
    cases runOp_world hrun hspec with
    | none huses _ _ => exact quiet_slot ht hhead hop hrun hspec huses
    | call answer hphase hcall hphase' =>
      cases answer with
      | none =>
        obtain ⟨howes, htold⟩ := unanswered (ht.plain x op hop) (.inl hphase)
        obtain ⟨howes', htold'⟩ := unanswered (hspec.run.plain (ht.plain x op hop)) (.inr hphase')
        exact .idle (opAt_same hop hspec.ops (howes'.trans howes.symm))
          (opAt_same hop hspec.ops (htold'.trans htold.symm))
          (call_keepsError hapi hcall fun _ h => by cases h) (note_of_run ht hhead hop)
      | some response =>
        refine answer_slot ht hhead hop hspec (.inl hphase) hphase' (fun hempty => ?_)
          fun hok => call_keepsError hapi hcall fun _ h => Option.some.inj h ▸ hok
        rw [recording_eq hhead hop, recordedBy, hphase]
        simp [emptied_eq hempty, hcall]
    | finish response hphase hfinish hphase' =>
      obtain ⟨wait, hwait, hwapi⟩ := ht.wait hop hphase
      refine answer_slot ht hhead hop hspec (.inr hphase) hphase' (fun hempty => ?_)
        fun hok => finish_keepsError hwait (hwapi ▸ hapi) hfinish hok
      rw [recording_eq hhead hop, recordedBy, hphase]
      simp [emptied_eq hempty, hfinish]
    | report answer response hphase hcall hphase' =>
      exact take_slot ht hhead hop hspec hcareful hphase hcall hphase'

theorem step_slot {s s' : Host} {l : Step} (ht : s.Tidy) (h : s.step l = some s')
    (hcareful : s.careful l = true) : s.SlotStep s' (s.recording l) := by
  have htouch : ∀ {x op op'}, s.ops.lookup x = some op → op.Touch op' →
      s'.ops = s.ops.insert x op' → s'.world = s.world → s.recording l = none →
      s.SlotStep s' (s.recording l) := by
    intro x op op' hop htouch heq hworld hnone
    obtain ⟨howes, htold⟩ := htouch.attributes (ht.plain x op hop)
    exact .idle (opAt_same hop heq howes) (opAt_same hop heq htold) (by rw [hworld])
      (by simp [hnone])
  have hops : s'.ops = s.ops → s'.world.session.lastError = s.world.session.lastError →
      s.recording l = none → s.SlotStep s' (s.recording l) := by
    intro heq herror hnone
    exact .idle (opAt_congr heq) (opAt_congr heq) herror (by simp [hnone])
  have hwoken : ∀ {t : Host} (waker : Waker), t.ops = s.ops →
      t.world.session.lastError = s.world.session.lastError → s' = t.woken waker →
      s.recording l = none → s.SlotStep s' (s.recording l) := by
    intro t waker heq herror hs' hnone
    have hplain : ∀ y op op', t.ops.lookup y = some op → op.Touch op' →
        op'.owes = op.owes ∧ op'.told = op.told :=
      fun y op op' hop htouch => htouch.attributes (ht.plain y op (heq ▸ hop))
    refine .idle ?_ ?_ (by rw [hs', woken_world, herror]) (by simp [hnone])
    · rw [hs', opAt_woken waker fun y op op' hop htouch => (hplain y op op' hop htouch).1,
        opAt_congr heq]
    · rw [hs', opAt_woken waker fun y op op' hop htouch => (hplain y op op' hop htouch).2,
        opAt_congr heq]
  cases step_end h with
  | submit x lane semantics api hnew =>
    exact .idle (opAt_submit hnew rfl (by simp [Op.owes]))
      (opAt_submit hnew rfl (by simp [Op.told])) rfl (by simp [recording])
  | enqueue x op hop hphase => exact htouch hop (.enqueue hphase) rfl rfl rfl
  | cancel x op hop hcancelled => exact htouch hop (.cancel hcancelled) rfl rfl rfl
  | run env lane x op op' _ hhead hop hrun hspec => exact run_slot ht hhead hop hrun hspec hcareful
  | drain env lane hhead => exact hops rfl rfl (by simp only [recording, hhead])
  | take env lane hhead => exact hops rfl rfl (by simp only [recording, hhead])
  | destroy env lane w hhead hstorage hw =>
    refine hops rfl ?_ (by simp only [recording, hhead])
    cases hw
    rfl
  | destroyNothing env lane hhead => exact hops rfl rfl (by simp only [recording, hhead])
  | wakeNothing waker => exact hwoken (t := s) waker rfl rfl rfl rfl
  | woke env waker w answer hlock hw =>
    obtain ⟨t, henter, herror⟩ := call_enter hw
    cases henter
    exact hwoken (t := { s with world := w, lock := none }) waker rfl herror rfl rfl
  | returns x op hop hreturned houtcome =>
    refine @htouch x op { op with returned := true } hop (.returns houtcome) ?_ ?_ rfl
    · unfold returns
      dsimp only
      split <;> rfl
    · unfold returns
      dsimp only
      split <;> rfl
  | alert env alert w hstorage hw =>
    refine hops rfl ?_ rfl
    simp only [World.step, Option.ite_none_left_eq_some, Option.map_eq_some_iff] at hw
    obtain ⟨-, t, halert, rfl⟩ := hw
    exact Session.handleAlert_keepsError halert
  | deinit w hgone hreferenced hstorage hw =>
    refine hops rfl ?_ rfl
    cases hw
    rfl
  | wake | close | shutdown | shutdownAgain | closing | addDrain | addDestroy | release
  | deinitNothing => exact hops rfl rfl rfl

end Host

/-! ## Whose text it is -/

namespace Recorded

/-- The text in the slot is that of the native operation that has failed and not taken it. -/
structure Owned (s : Recorded) : Prop where
  sole : ∀ x y, s.host.opAt Op.owes x ≠ none → s.host.opAt Op.owes y ≠ none → x = y
  pending : ∀ x response, s.host.opAt Op.owes x = some response →
    s.host.world.session.lastError = s.record x ∧ (response.code = .ok → s.record x = "")
  clear : (∀ x, s.host.opAt Op.owes x = none) → s.host.world.session.lastError = ""
  told : ∀ x response answer, s.host.opAt Op.told x = some (.native response answer) →
    response.code ≠ .ok → Swift.takeNativeError answer = Swift.nativeText (s.record x)

theorem owned_initial : Owned {} where
  sole x y hx := absurd rfl hx
  pending x response hx := by cases hx
  clear _ := rfl
  told x response answer hx := by cases hx

theorem noted_of_ne {record : OpId → String} {note : Option (OpId × String)} {x : OpId}
    (h : ∀ y text, note = some (y, text) → x ≠ y) : noted record note x = record x := by
  cases note with
  | none => rfl
  | some note => exact Function.update_of_ne (h note.1 note.2 rfl) _ _

/-- The one operation that owes has been answered for. -/
theorem Owned.settle {s : Recorded} (h : s.Owned) {f : OpId → Option Response} {x : OpId}
    {response : Response} (hx : s.host.opAt Op.owes x = some response)
    (hf : f = Function.update (s.host.opAt Op.owes) x none) (y : OpId) : f y = none := by
  rw [hf]
  by_cases hy : y = x
  · rw [hy, Function.update_self]
  · rw [Function.update_of_ne hy]
    by_contra hne
    exact hy (h.sole y x hne (by rw [hx]; simp))

/-- Nobody owes after a step. -/
theorem owned_settled {s : Recorded} (hnobody : ∀ x, s.host.opAt Op.owes x = none)
    (hclear : s.host.world.session.lastError = "")
    (htold : ∀ x response answer, s.host.opAt Op.told x = some (.native response answer) →
      response.code ≠ .ok → Swift.takeNativeError answer = Swift.nativeText (s.record x)) :
    s.Owned where
  sole x y hx := absurd (hnobody x) hx
  pending x response hx := by
    rw [hnobody x] at hx
    cases hx
  clear _ := hclear
  told := htold

theorem owned_step {s : Recorded} {host : Host} {l : Host.Step} (h : s.Owned)
    (hstep : s.host.SlotStep host (s.host.recording l)) :
    Owned { host, record := noted s.record (s.host.recording l) } := by
  generalize s.host.recording l = note at hstep
  cases hstep with
  | idle howes htold herror hnote =>
    have hsame : ∀ x, s.host.opAt Op.owes x ≠ none ∨ s.host.opAt Op.told x ≠ none →
        noted s.record note x = s.record x := by
      intro x hx
      refine noted_of_ne fun y text heq hxy => ?_
      obtain ⟨hnone, hnone'⟩ := hnote y text heq
      rw [hxy, hnone, hnone'] at hx
      exact hx.elim (fun h => h rfl) fun h => h rfl
    constructor
    · rw [howes]
      exact h.sole
    · intro x response hx
      rw [howes] at hx
      dsimp only
      rw [herror, hsame x (.inl (by rw [hx]; simp))]
      exact h.pending x response hx
    · rw [howes, herror]
      exact h.clear
    · intro x response answer hx hfailed
      rw [htold] at hx
      dsimp only
      rw [hsame x (.inr (by rw [hx]; simp))]
      exact h.told x response answer hx hfailed
  | answer x response hnobody hnone howes htold hnote hok =>
    have hempty := h.clear hnobody
    obtain rfl := hnote hempty
    have hx : noted s.record (some (x, host.world.session.lastError)) x
        = host.world.session.lastError := Function.update_self ..
    have hother : ∀ y, y ≠ x → host.opAt Op.owes y = none := by
      intro y hy
      rw [howes, Function.update_of_ne hy, hnobody y]
    have hself : host.opAt Op.owes x = some response := by rw [howes, Function.update_self]
    constructor
    · intro y z hy hz
      rw [not_imp_comm.mp (hother y) hy, not_imp_comm.mp (hother z) hz]
    · intro y response' hy
      obtain rfl : y = x := not_imp_comm.mp (hother y) (by rw [hy]; simp)
      obtain rfl := Option.some.inj (hself.symm.trans hy)
      exact ⟨hx.symm, fun hcode => hx.trans ((hok hcode).trans hempty)⟩
    · intro hall
      rw [hall x] at hself
      cases hself
    · intro y response' answer hy hfailed
      rw [htold] at hy
      have hne : y ≠ x := by
        rintro rfl
        rw [hnone] at hy
        cases hy
      have hrecord : noted s.record (some (x, host.world.session.lastError)) y = s.record y :=
        Function.update_of_ne hne _ _
      exact (h.told y response' answer hy hfailed).trans (congrArg Swift.nativeText hrecord.symm)
  | succeed x response hx hok hnote howes htold herror =>
    subst hnote
    obtain ⟨hslot, hempty⟩ := h.pending x response hx
    refine owned_settled (h.settle hx howes) (herror.trans (hslot.trans (hempty hok))) ?_
    intro y response' answer hy hfailed
    rw [htold] at hy
    by_cases hyx : y = x
    · rw [hyx, Function.update_self] at hy
      cases hy
      exact absurd hok hfailed
    · rw [Function.update_of_ne hyx] at hy
      exact h.told y response' answer hy hfailed
  | take x response answer hx hnote howes htold herror hanswer =>
    subst hnote
    obtain ⟨hslot, -⟩ := h.pending x response hx
    refine owned_settled (h.settle hx howes) herror ?_
    intro y response' answer' hy hfailed
    rw [htold] at hy
    by_cases hyx : y = x
    · rw [hyx, Function.update_self] at hy
      cases hy
      rw [hanswer, hslot, hyx]
      rfl
    · rw [Function.update_of_ne hyx] at hy
      exact h.told y response' answer' hy hfailed

/-- A run with records is a run of the host. -/
theorem exec_host {ls : List Host.Step} {s : Recorded} (h : Lts.exec step {} ls = some s) :
    ∃ hs, Lts.exec Host.step {} hs = some s.host := by
  refine Lts.exec_part host (fun s l s' hstep => ?_) h
  obtain ⟨host, hhost, rfl⟩ := Option.map_eq_some_iff.mp hstep
  exact Or.inr ⟨l, hhost⟩

theorem run_owned {ls : List Host.Step} {s : Recorded}
    (hcareful : Lts.EachStep step (fun s l => s.host.careful l = true) {} ls)
    (h : Lts.exec step {} ls = some s) : s.Owned := by
  refine Lts.exec_reached Owned owned_initial (fun pre t l u ht howned hl hstep => ?_) ls s
    hcareful h
  obtain ⟨hs, hhs⟩ := exec_host ht
  obtain ⟨host, hhost, rfl⟩ := Option.map_eq_some_iff.mp hstep
  exact owned_step howned (Host.step_slot (Host.run_tidy hhs) hhost hl)

/-- Every error that `check` throws has the text that its own call recorded, as long as no event
read fails to copy its event and every take can copy its text. -/
theorem message_own (platform : Swift.Foundation) (operation : Swift.Operation)
    {ls : List Host.Step} {s : Recorded} (h : Lts.exec step {} ls = some s)
    (hcareful : Lts.EachStep step (fun s l => s.host.careful l = true) {} ls) {x : OpId} {op : Op}
    {response : Response} {answer : Option Response} (hop : s.host.ops.lookup x = some op)
    (hlane : op.lane = .native) (hyielded : op.yielded = some (.native response answer))
    (hfailed : response.code ≠ .ok) :
    Swift.check platform operation (.native response answer) =
      some (.native platform operation response.code.rawValue (Swift.nativeText (s.record x))) := by
  have htold : s.host.opAt Op.told x = some (.native response answer) := by
    rw [Host.opAt_eq hop, Op.told, if_pos hlane, hyielded]
  rw [Swift.check, if_neg hfailed, (run_owned hcareful h).told x response answer htold hfailed]

/-- The state after a run that goes through. -/
def after (ls : List Host.Step) : Recorded := (Lts.exec step {} ls).getD {}

theorem exec_after {ls : List Host.Step} (h : (Lts.exec step {} ls).isSome = true) :
    Lts.exec step {} ls = some (after ls) :=
  Lts.exec_getD h

/-- The status of a torrent that is not there. -/
def missingRun : List Host.Step :=
  [.submit 0 .native .cancellable (.status "b"), .enqueue 0] ++
    List.replicate 6 (.run sampleEnvironment .native)

/-- An event read runs out of memory between the failure of a call and its take. -/
def strayRun : List Host.Step :=
  [.submit 0 .native .mutation (.add sampleRequest), .enqueue 0] ++
    List.replicate 8 (.run sampleEnvironment .native) ++
    [.submit 1 .native .cancellable (.status "b"), .enqueue 1] ++
    List.replicate 4 (.run sampleEnvironment .native) ++
    [.submit 2 .events .cancellable (.nextEvent 500), .enqueue 2] ++
    List.replicate 3 (.run sampleEnvironment .events) ++
    .run { sampleEnvironment with malloc := false } .events ::
    List.replicate 2 (.run sampleEnvironment .native)

/-- The call for the status, once its closure has thrown. -/
def statusOp (taken : String) : Op where
  lane := .native
  semantics := .cancellable
  api := .status "b"
  phase := .executed (.native { code := .invalidIdentifier }
    (some { code := .ok, output := .text taken }))
  running := true
  runs := 1
  yielded := some (.native { code := .invalidIdentifier }
    (some { code := .ok, output := .text taken }))

theorem missingRun_message :
    Swift.check Swift.TorrentError.codePoints .status (.native { code := .invalidIdentifier }
        (some { code := .ok, output := .text "The torrent identifier does not exist." })) =
      some (.native Swift.TorrentError.codePoints .status 4
        (Swift.nativeText ((after missingRun).record 0))) := by
  have hcareful : Lts.EachStep step (fun s l => s.host.careful l = true) {} missingRun :=
    Lts.eachStep_of_check (by decide +kernel)
  have hop : (after missingRun).host.ops.lookup 0
      = some (statusOp "The torrent identifier does not exist.") := by decide +kernel
  exact message_own Swift.TorrentError.codePoints .status (exec_after (by decide +kernel)) hcareful
    hop rfl rfl (by decide)

/-- The error of the status call gets the text of the event read. -/
theorem strayRun_message :
    ¬ ∀ (ls : List Host.Step) (s : Recorded), Lts.exec step {} ls = some s → ∀ x op response answer,
      s.host.ops.lookup x = some op → op.lane = .native →
      op.yielded = some (.native response answer) → response.code ≠ .ok →
      Swift.check Swift.TorrentError.codePoints .status (.native response answer) =
        some (.native Swift.TorrentError.codePoints .status response.code.rawValue
          (Swift.nativeText (s.record x))) := by
  intro h
  have hop : (after strayRun).host.ops.lookup 1
      = some (statusOp "The event response could not be allocated.") := by decide +kernel
  have hrecord : (after strayRun).record 1 = "The torrent identifier does not exist." := by
    decide +kernel
  have hmessage := h strayRun _ (exec_after (by decide +kernel)) 1 _ _ _ hop rfl rfl (by decide)
  rw [hrecord] at hmessage
  revert hmessage
  decide +kernel

end Recorded

end LibtorrentKit
