import Mathlib.Data.Nat.Bitwise
import Mathlib.Logic.Function.Basic
import TinyServer.Lib.Run

/-!
# The connection queue (`connection.c`)

One producer calls `enqueue_connection` and any number of consumers call
`dequeue_connection` on one ring. Each atomic load, store or compare-exchange and
each payload copy is one step; between any two steps any other party may move.
`q->tail_id` is touched by the producer alone, so its increment goes with the
store before it.

`History` records what the callers see. No step reads it.
-/

set_option autoImplicit false

namespace TinyServer.Queue

/-- `connection`. -/
structure Connection where
  acceptTime : Nat
  ip : Nat × Nat
  fd : Int
  port : Nat
  flags : Nat
  ready : Bool
  deriving DecidableEq, Repr

/-- `connection_copy_payload`: everything but `ready`. -/
def connectionCopyPayload (dst src : Connection) : Connection :=
  { dst with
    acceptTime := src.acceptTime
    ip := src.ip
    fd := src.fd
    port := src.port
    flags := src.flags }

/-- The fields a payload copy carries over. -/
def Connection.payload (c : Connection) : Nat × (Nat × Nat) × Int × Nat × Nat :=
  (c.acceptTime, c.ip, c.fd, c.port, c.flags)

@[simp] theorem connectionCopyPayload_payload (dst src : Connection) :
    (connectionCopyPayload dst src).payload = src.payload := rfl

@[simp] theorem connectionCopyPayload_ready (dst src : Connection) :
    (connectionCopyPayload dst src).ready = dst.ready := rfl

/-- `capacity`: a power of two that is at least 2 and fits a `uint32_t`. -/
structure Capacity where
  log2 : Nat
  one_le : 1 ≤ log2
  le : log2 ≤ 31

/-- The slots of the ring. -/
def Capacity.size (cap : Capacity) : Nat := 2 ^ cap.log2

theorem Capacity.size_pos (cap : Capacity) : 0 < cap.size := Nat.two_pow_pos _

/-- `id & mask` with `mask = capacity - 1`. -/
def slotOf (cap : Capacity) (id : Nat) : Fin cap.size :=
  ⟨id &&& (cap.size - 1), by
    have := cap.size_pos
    exact lt_of_le_of_lt Nat.and_le_right (by omega)⟩

/-- `head_id` and `tail_id` are `uint64_t`. -/
def wrap64 (n : Nat) : Nat := n % 2 ^ 64

/-- `connection_queue`. -/
structure ConnectionQueue (cap : Capacity) where
  data : Fin cap.size → Connection
  headId : Nat
  tailId : Nat

namespace ConnectionQueue

variable {cap : Capacity}

/-- The slot at an index. -/
def slot (q : ConnectionQueue cap) (id : Nat) : Connection := q.data (slotOf cap id)

/-- The slot at an index is overwritten. -/
def setSlot (q : ConnectionQueue cap) (id : Nat) (c : Connection) : ConnectionQueue cap :=
  { q with data := Function.update q.data (slotOf cap id) c }

end ConnectionQueue

/-- Where the producer stands inside `enqueue_connection(q, c)`. -/
inductive ProducerPc where
  | idle
  /-- Read `ready` = 0; the payload copy is next. -/
  | checked (c : Connection)
  /-- Copied the payload; the store of `ready` is next. -/
  | copied (c : Connection)
  deriving DecidableEq, Repr

/-- Where a consumer stands inside `dequeue_connection`. -/
inductive ConsumerPc where
  | idle
  /-- At the top of the loop; the load of `ready` is next. -/
  | atSlot (pos : Nat)
  /-- Read `ready` = 0; the load of `head_id` is next. -/
  | sawEmpty (pos : Nat)
  /-- Read `ready` = 1; the compare-exchange is next. -/
  | sawReady (pos : Nat)
  /-- Advanced `head_id`; the payload copy is next. -/
  | claimed (pos : Nat)
  /-- Copied the payload; the store of `ready` is next. -/
  | copied (pos : Nat)
  deriving DecidableEq, Repr

/-- The position a consumer has claimed and not released. -/
def ConsumerPc.held : ConsumerPc → Option Nat
  | .claimed pos => some pos
  | .copied pos => some pos
  | _ => none

/-- A consumer and the caller's record `*c`. -/
structure Consumer where
  pc : ConsumerPc
  out : Connection
  deriving DecidableEq, Repr

/-- What happened so far: the connections `enqueue_connection` accepted and
refused, the positions claimed, and the records returned, each with the number of
the claim it came from. `ticket i` is the number of the last claim of `i`. -/
structure History (ι : Type) where
  accepted : List Connection
  refused : List Connection
  claimed : List Nat
  returned : List (Nat × Connection)
  ticket : ι → Nat

/-- The queue, the threads and what happened so far. -/
structure State (cap : Capacity) (ι : Type) where
  queue : ConnectionQueue cap
  producer : ProducerPc
  consumers : ι → Consumer
  history : History ι

/-- `enqueue c` and `dequeue i out` begin a call, with its first load. -/
inductive Action (ι : Type) where
  | enqueue (c : Connection)
  | produce
  | dequeue (i : ι) (out : Connection)
  | consume (i : ι)

section Steps

variable {cap : Capacity} {ι : Type}

/-- The load of `ready` in `enqueue_connection`. A refused connection is closed
by the callee when its descriptor is not negative. -/
def enqueueLoad (s : State cap ι) (c : Connection) : State cap ι :=
  if (s.queue.slot s.queue.tailId).ready then
    { s with history := { s.history with refused := s.history.refused ++ [c] } }
  else { s with producer := .checked c }

/-- The next step of the thread inside `enqueue_connection`. -/
def producerStep (s : State cap ι) : Option (State cap ι) :=
  match s.producer with
  | .idle => none
  | .checked c =>
      let slot := s.queue.slot s.queue.tailId
      some { s with
        queue := s.queue.setSlot s.queue.tailId (connectionCopyPayload slot c)
        producer := .copied c }
  -- `ready` is stored with release, then the tail moves
  | .copied c =>
      let slot := s.queue.slot s.queue.tailId
      some { s with
        queue := { s.queue.setSlot s.queue.tailId { slot with ready := true } with
          tailId := wrap64 (s.queue.tailId + 1) }
        producer := .idle
        history := { s.history with accepted := s.history.accepted ++ [c] } }

variable [DecidableEq ι]

/-- The consumer `i` goes on. -/
def State.setConsumer (s : State cap ι) (i : ι) (c : Consumer) : State cap ι :=
  { s with consumers := Function.update s.consumers i c }

/-- The compare-exchange of `head_id` from `pos` to `pos + 1`. -/
def claimStep (s : State cap ι) (i : ι) (pos : Nat) : State cap ι :=
  let me := s.consumers i
  if s.queue.headId = pos then
    { s.setConsumer i { me with pc := .claimed pos } with
      queue := { s.queue with headId := wrap64 (pos + 1) }
      history := { s.history with
        claimed := s.history.claimed ++ [pos]
        ticket := Function.update s.history.ticket i s.history.claimed.length } }
  else s.setConsumer i { me with pc := .atSlot s.queue.headId }

/-- The next step of a thread inside `dequeue_connection`. -/
def consumerStep (s : State cap ι) (i : ι) : Option (State cap ι) :=
  let me := s.consumers i
  match me.pc with
  | .idle => none
  | .atSlot pos =>
      -- empty, or the slot's message is not out yet
      if (s.queue.slot pos).ready then some (s.setConsumer i { me with pc := .sawReady pos })
      else some (s.setConsumer i { me with pc := .sawEmpty pos })
  | .sawEmpty pos =>
      -- another consumer moved the head meanwhile
      if s.queue.headId ≠ pos then
        some (s.setConsumer i { me with pc := .atSlot s.queue.headId })
      else some (s.setConsumer i { me with pc := .idle })
  | .sawReady pos => some (claimStep s i pos)
  | .claimed pos =>
      let out := connectionCopyPayload me.out (s.queue.slot pos)
      some (s.setConsumer i ⟨.copied pos, out⟩)
  | .copied pos =>
      some { s.setConsumer i { me with pc := .idle } with
        queue := s.queue.setSlot pos { s.queue.slot pos with ready := false }
        history := { s.history with
          returned := s.history.returned ++ [(s.history.ticket i, me.out)] } }

/-- One step. -/
def step (s : State cap ι) : Action ι → Option (State cap ι)
  | .enqueue c => if s.producer = .idle then some (enqueueLoad s c) else none
  | .produce => producerStep s
  | .dequeue i out =>
      if (s.consumers i).pc = .idle then
        some (s.setConsumer i ⟨.atSlot s.queue.headId, out⟩)
      else none
  | .consume i => consumerStep s i

end Steps

/-- The queue `tiny_runtime` starts with: every `ready` is 0, nobody is inside a
call. -/
structure Init {cap : Capacity} {ι : Type} (s : State cap ι) : Prop where
  empty : ∀ x, (s.queue.data x).ready = false
  head : s.queue.headId = 0
  tail : s.queue.tailId = 0
  producer : s.producer = .idle
  consumers : ∀ i, (s.consumers i).pc = .idle
  accepted : s.history.accepted = []
  claimed : s.history.claimed = []
  returned : s.history.returned = []

end TinyServer.Queue
