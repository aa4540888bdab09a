/-
  `EventMailbox.hpp`: the native mailbox between the alert thread and `next_event`.

  `critical_` is a `std::list`, so a node keeps its address for as long as it is queued,
  and `last_error` is a raw pointer to such a node. Nodes carry their address here, and
  `last_error` is an address: nothing in the model ties it to a live node, that is the
  invariant `EventMailbox.WellFormed.lastError`. An `Allocator` is any
  heap that never hands out the address of a live node; a freed address may come back.

  `jobs_` is a `std::unordered_map`. Its iteration order, which `front` and `pop` see when
  they look for a status, is an argument of these two.

  A C++ operation that throws or that has no defined behaviour is an `Except.error`.
  The assertions are not executed (the model is the release build); `asserted` is the one
  of `critical` that compares two payloads. `count` and `pending` are unbounded: 2^64
  occurrences of one error run are not considered.
-/
import Mathlib.Data.Finmap

namespace LibtorrentKit

/-- `EventMailbox::Kind`. -/
inductive Kind where
  | metadata
  | completed
  | stopped
  | invalidSelection
  | error
  deriving DecidableEq, Repr

/-- Every kind but `error` is delivered at most once for each added torrent. -/
def Kind.oneShot : Kind → Bool
  | .error => false
  | _ => true

/-- Why an operation of the mailbox does not return normally. -/
inductive Fault where
  /-- `jobs_.at(id)` throws `std::out_of_range`; the mailbox is unchanged. -/
  | outOfRange
  /-- A dangling pointer, a missing map node or an unsigned underflow. -/
  | undefinedBehaviour
  deriving DecidableEq, Repr

abbrev Addr := Nat

/-- The heap as `push_back` sees it: a new node gets an address that no live node has. -/
abbrev Allocator := (live : List Addr) → {a : Addr // a ∉ live}

theorem le_foldr_max {a : Addr} {l : List Addr} (h : a ∈ l) : a ≤ l.foldr max 0 := by
  induction l with
  | nil => cases h
  | cons b l ih =>
      rw [List.foldr_cons]
      rcases List.mem_cons.mp h with rfl | h
      · exact le_max_left _ _
      · exact (ih h).trans (le_max_right _ _)

/-- The heap that hands out an address above every live one. -/
def bumpAllocator : Allocator := fun live =>
  ⟨live.foldr max 0 + 1, fun h => Nat.not_succ_le_self _ (le_foldr_max h)⟩

/-- `EventMailbox::Entry`, a node of `critical_`. -/
structure EventMailbox.Entry where
  addr : Addr
  id : String
  json : String
  count : Nat
  deriving DecidableEq, Repr

/-- `EventMailbox::Job`. -/
structure EventMailbox.Job where
  deliveredOrPending : Finset Kind := ∅
  status : Option String := none
  lastError : Option Addr := none
  pending : Nat := 0
  retired : Bool := false
  deriving DecidableEq

structure EventMailbox where
  critical_ : List EventMailbox.Entry := []
  jobs_ : Finmap (fun _ : String => EventMailbox.Job) := ∅

namespace EventMailbox

def maxJobs : Nat := 256

/-- Four one-shot transitions can separate at most five error runs. -/
def maxCriticalEntries : Nat := maxJobs * 9

def canAdd (m : EventMailbox) (id : String) : Bool :=
  decide (m.jobs_.keys.card < maxJobs) && decide (id ∉ m.jobs_)

/-- `jobs_.emplace(id, Job{})`, which leaves an entry that is there as it is. -/
def add (m : EventMailbox) (id : String) : EventMailbox :=
  if id ∈ m.jobs_ then m else { m with jobs_ := m.jobs_.insert id {} }

def retire (m : EventMailbox) (id : String) : EventMailbox :=
  match m.jobs_.lookup id with
  | none => m
  | some job =>
      if job.pending = 0 then { m with jobs_ := m.jobs_.erase id }
      else { m with jobs_ := m.jobs_.insert id { job with retired := true, status := none } }

/-- The node a pointer designates, if it is live. -/
def deref (m : EventMailbox) (p : Addr) : Option Entry :=
  m.critical_.find? fun e => decide (e.addr = p)

/-- `++p->count`. -/
def bump (p : Addr) (e : Entry) : Entry :=
  if e.addr = p then { e with count := e.count + 1 } else e

/-- `critical_.push_back({id, json, 1})` with the bookkeeping around it. -/
def pushCritical (alloc : Allocator) (m : EventMailbox) (id : String) (kind : Kind)
    (json : String) (job : Job) : EventMailbox :=
  let node : Addr := alloc (m.critical_.map Entry.addr)
  { critical_ := m.critical_ ++ [⟨node, id, json, 1⟩]
    jobs_ := m.jobs_.insert id
      { job with
        status := none
        pending := job.pending + 1
        lastError := if kind = .error then some node else job.lastError } }

/-- `EventMailbox::critical`. An error is merged into the run that `last_error` designates;
    a repeated one-shot kind is dropped; anything else is queued. -/
def critical (alloc : Allocator) (m : EventMailbox) (id : String) (kind : Kind) (json : String) :
    Except Fault EventMailbox :=
  match m.jobs_.lookup id with
  | none => .error .outOfRange
  | some job =>
      if kind = .error then
        match job.lastError with
        | some p =>
            match m.deref p with
            | none => .error .undefinedBehaviour
            | some _ => .ok { m with critical_ := m.critical_.map (bump p) }
        | none => .ok (pushCritical alloc m id kind json job)
      else if kind ∈ job.deliveredOrPending then .ok m
      else
        .ok (pushCritical alloc m id kind json
          { job with
            deliveredOrPending := insert kind job.deliveredOrPending
            lastError := none })

/-- The unread error run of `id` that the next error would be merged into. -/
def unreadError (m : EventMailbox) (id : String) : Option Entry :=
  (m.jobs_.lookup id).bind fun job => job.lastError.bind m.deref

/-- `assert(job.last_error->json == json)` in `critical`. -/
def asserted (m : EventMailbox) (id : String) (kind : Kind) (json : String) : Prop :=
  kind = .error → ∀ run, m.unreadError id = some run → run.json = json

/-- `EventMailbox::status`. -/
def status (m : EventMailbox) (id : String) (json : String) : Except Fault EventMailbox :=
  match m.jobs_.lookup id with
  | none => .error .outOfRange
  | some job =>
      if job.retired ∨ Kind.completed ∈ job.deliveredOrPending
          ∨ Kind.invalidSelection ∈ job.deliveredOrPending then .ok m
      else .ok { m with jobs_ := m.jobs_.insert id { job with status := some json } }

/-- The first torrent of `order` that has a status. -/
def statusHolder (m : EventMailbox) (order : List String) : Option String :=
  order.find? fun id => ((m.jobs_.lookup id).bind Job.status).isSome

/-- `EventMailbox::front`. -/
def front (m : EventMailbox) (order : List String) : Option String :=
  match m.critical_ with
  | e :: _ => some e.json
  | [] => (m.statusHolder order).bind fun id => (m.jobs_.lookup id).bind Job.status

/-- The last part of `pop` for a critical entry whose count has come down to zero: its
    node `e` is freed, and a retired job goes with its last entry. -/
def popLast (m : EventMailbox) (e : Entry) (rest : List Entry) (job : Job) : EventMailbox :=
  let job := { job with
    lastError := if job.lastError = some e.addr then none else job.lastError
    pending := job.pending - 1 }
  { critical_ := rest
    jobs_ := if job.retired ∧ job.pending = 0 then m.jobs_.erase e.id
      else m.jobs_.insert e.id job }

/-- `EventMailbox::pop`. -/
def pop (m : EventMailbox) (order : List String) : Except Fault EventMailbox :=
  match m.critical_ with
  | e :: rest =>
      match e.count with
      | 0 => .error .undefinedBehaviour
      | 1 =>
          match m.jobs_.lookup e.id with
          | none => .error .undefinedBehaviour
          | some job =>
              if job.pending = 0 then .error .undefinedBehaviour
              else .ok (popLast m e rest job)
      | n + 2 => .ok { m with critical_ := { e with count := n + 1 } :: rest }
  | [] =>
      match m.statusHolder order with
      | none => .ok m
      | some id =>
          match m.jobs_.lookup id with
          | none => .ok m
          | some job => .ok { m with jobs_ := m.jobs_.insert id { job with status := none } }

end EventMailbox

end LibtorrentKit
