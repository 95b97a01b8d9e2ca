import TinyServer.Queue.Delivery

/-!
# The log queue (`logger.c`)

Any number of threads call `enqueue_log`, and the logger thread calls `dequeue_log`. A
producer claims a position with a compare-exchange on `tail_id`, fills the slot and sets its
`ready`; the consumer waits for `ready` at `head_id`, copies the slot, clears `ready` and
advances `head_id`. Each atomic access and each copy is one step; between any two steps any
other party may move. Both indices are `uint32_t`.

`History` records what the callers see. No step reads it.
-/

set_option autoImplicit false

namespace TinyServer.Logger

open TinyServer.Queue (Capacity slotOf)

/-- `log_level`. -/
inductive LogLevel where
  | info
  | warning
  | error
  deriving DecidableEq, Repr

/-- `LOG_QUEUE_SIZE`. -/
def logCapacity : Capacity := ⟨7, by decide, by decide⟩

/-- The entries of the ring. -/
def LOG_QUEUE_SIZE : Nat := 128

/-- The bytes of a message. -/
def LOG_MESSAGE_SIZE : Nat := 160

/-- `log_entry`; `tiny_log` cuts a message so that its length is below the size. -/
structure LogEntry where
  level : LogLevel
  ready : Bool
  len : Fin LOG_MESSAGE_SIZE
  message : Fin LOG_MESSAGE_SIZE → UInt8

/-- `{ 0 }`. -/
def LogEntry.zero : LogEntry := ⟨.info, false, ⟨0, by decide⟩, fun _ => 0⟩

/-- The copy of an entry, in either direction: all but `ready`, and of the message what is
used of it, with a NUL behind. -/
def logCopy (dst src : LogEntry) : LogEntry :=
  { dst with
    level := src.level
    len := src.len
    message := fun k => if k < src.len then src.message k else if k = src.len then 0 else dst.message k }

/-- The text of a message, as `logger` writes it. -/
def LogEntry.text (e : LogEntry) : List UInt8 := (List.ofFn e.message).take e.len.val

/-- What a reader of the log sees of an entry. -/
def LogEntry.payload (e : LogEntry) : LogLevel × Nat × List UInt8 := (e.level, e.len.val, e.text)

/-- An index of 32 bits. -/
def wrap32 (n : Nat) : Nat := n % 2 ^ 32

/-- The difference of two `uint32_t`. -/
def sub32 (a b : Nat) : Nat := (a + 2 ^ 32 - b) % 2 ^ 32

/-- `log_queue`. -/
structure LogQueue where
  data : Fin logCapacity.size → LogEntry
  headId : Nat
  tailId : Nat

namespace LogQueue

/-- The entry at an index. -/
def slot (q : LogQueue) (id : Nat) : LogEntry := q.data (slotOf logCapacity id)

/-- The entry at an index is overwritten. -/
def setSlot (q : LogQueue) (id : Nat) (e : LogEntry) : LogQueue :=
  { q with data := Function.update q.data (slotOf logCapacity id) e }

end LogQueue

/-- Where a producer stands inside `enqueue_log(l)`. -/
inductive ProducerPc where
  | idle
  /-- At the top of the loop; the load of `tail_id` is next. -/
  | readTail (l : LogEntry)
  /-- The load of `head_id` and the test are next. -/
  | readHead (l : LogEntry) (tail : Nat)
  /-- The compare-exchange is next. -/
  | checked (l : LogEntry) (tail : Nat)
  /-- Advanced `tail_id`; the copy is next. -/
  | claimed (l : LogEntry) (pos : Nat)
  /-- The store of `ready` is next. -/
  | copied (l : LogEntry) (pos : Nat)

/-- The thread is outside `enqueue_log`. -/
def ProducerPc.isIdle : ProducerPc → Bool
  | .idle => true
  | _ => false

/-- The message and the position of a producer that has claimed and not published. -/
def ProducerPc.holds : ProducerPc → Option (LogEntry × Nat)
  | .claimed l pos => some (l, pos)
  | .copied l pos => some (l, pos)
  | _ => none

/-- Where the consumer stands inside `dequeue_log`, while the logger runs. -/
inductive ConsumerPc where
  | idle
  /-- Loaded `head_id`; the load of `tail_id` is next. -/
  | readTail (head : Nat)
  /-- The load of `ready` is next, again and again until it is set. -/
  | waiting (head : Nat)
  /-- Saw `ready`; the copy is next. -/
  | sawReady (head : Nat)
  /-- The store that clears `ready` is next. -/
  | copied (head : Nat)
  /-- The store of `head_id` is next. -/
  | cleared (head : Nat)
  deriving DecidableEq, Repr

/-- The consumer and its caller's record `*l`. -/
structure Consumer where
  pc : ConsumerPc
  out : LogEntry

/-- What happened so far: the messages accepted, in the order in which their positions were
claimed; the messages dequeued; and the messages dropped, each with whether the queue was
full at some moment of the call. For each producer: the number of claims before its call
began, the number before it last loaded `tail_id` or claimed, and whether the queue was
full since its call began. -/
structure History (ι : Type) where
  claimed : List LogEntry
  dequeued : List LogEntry
  dropped : List (LogEntry × Bool)
  begun : ι → Nat
  mark : ι → Nat
  sawFull : ι → Bool

/-- The queue, the threads and what happened so far. -/
structure State (ι : Type) where
  queue : LogQueue
  producers : ι → ProducerPc
  consumer : Consumer
  history : History ι

/-- `enqueue i l` and `dequeue out` begin a call; the second one with its first load. -/
inductive Action (ι : Type) where
  | enqueue (i : ι) (l : LogEntry)
  | produce (i : ι)
  | dequeue (out : LogEntry)
  | consume

section Steps

variable {ι : Type}

/-- The queue holds `LOG_QUEUE_SIZE` entries that are claimed and not consumed. -/
def State.isFull (s : State ι) : Bool :=
  decide (LOG_QUEUE_SIZE ≤ s.history.claimed.length - s.history.dequeued.length)

/-- Each call in progress has now been in this state. -/
def State.observe (s : State ι) : State ι :=
  { s with history := { s.history with
      sawFull := fun i => !(s.producers i).isIdle && (s.history.sawFull i || s.isFull) } }

variable [DecidableEq ι]

/-- The producer `i` goes on. -/
def State.setProducer (s : State ι) (i : ι) (pc : ProducerPc) : State ι :=
  { s with producers := Function.update s.producers i pc }

/-- A call begins. -/
def State.begin (s : State ι) (i : ι) (l : LogEntry) : State ι :=
  { s.setProducer i (.readTail l) with history := { s.history with
      begun := Function.update s.history.begun i s.history.claimed.length } }

/-- The load of `tail_id`. -/
def State.loadTail (s : State ι) (i : ι) (l : LogEntry) : State ι :=
  { s.setProducer i (.readHead l s.queue.tailId) with history := { s.history with
      mark := Function.update s.history.mark i s.history.claimed.length } }

/-- The load of `head_id`, and the test. -/
def State.loadHead (s : State ι) (i : ι) (l : LogEntry) (tail : Nat) : State ι :=
  if LOG_QUEUE_SIZE ≤ sub32 tail s.queue.headId then
    { s.setProducer i .idle with history := { s.history with
        dropped := s.history.dropped ++ [(l, s.history.sawFull i)] } }
  else s.setProducer i (.checked l tail)

/-- The compare-exchange of `tail_id`. -/
def State.claim (s : State ι) (i : ι) (l : LogEntry) (tail : Nat) : State ι :=
  if s.queue.tailId = tail then
    { s.setProducer i (.claimed l tail) with
      queue := { s.queue with tailId := wrap32 (tail + 1) }
      history := { s.history with
        claimed := s.history.claimed ++ [l]
        mark := Function.update s.history.mark i s.history.claimed.length } }
  else s.setProducer i (.readTail l)

/-- The copy of the message. -/
def State.fill (s : State ι) (i : ι) (l : LogEntry) (pos : Nat) : State ι :=
  { s.setProducer i (.copied l pos) with
    queue := s.queue.setSlot pos (logCopy (s.queue.slot pos) l) }

/-- The store of `ready`. -/
def State.publish (s : State ι) (i : ι) (pos : Nat) : State ι :=
  { s.setProducer i .idle with
    queue := s.queue.setSlot pos { s.queue.slot pos with ready := true } }

/-- The next step of a thread inside `enqueue_log`. -/
def producerStep (s : State ι) (i : ι) : Option (State ι) :=
  match s.producers i with
  | .idle => none
  | .readTail l => some (s.loadTail i l)
  | .readHead l tail => some (s.loadHead i l tail)
  | .checked l tail => some (s.claim i l tail)
  | .claimed l pos => some (s.fill i l pos)
  | .copied _ pos => some (s.publish i pos)

omit [DecidableEq ι] in
/-- The next step of the thread inside `dequeue_log`. -/
def consumerStep (s : State ι) : Option (State ι) :=
  let me := s.consumer
  match me.pc with
  | .idle => none
  | .readTail head =>
      -- nothing is queued
      if head = s.queue.tailId then some { s with consumer := { me with pc := .idle } }
      else some { s with consumer := { me with pc := .waiting head } }
  | .waiting head =>
      if (s.queue.slot head).ready then some { s with consumer := { me with pc := .sawReady head } }
      -- the slot was claimed, and its message is not written yet: `log_dequeue` spins
      else some s
  | .sawReady head =>
      some { s with consumer := ⟨.copied head, logCopy me.out (s.queue.slot head)⟩ }
  | .copied head =>
      -- the slot is cleared before the head moves past it
      some { s with
        queue := s.queue.setSlot head { s.queue.slot head with ready := false }
        consumer := { me with pc := .cleared head } }
  | .cleared head =>
      some { s with
        queue := { s.queue with headId := wrap32 (head + 1) }
        consumer := { me with pc := .idle }
        history := { s.history with dequeued := s.history.dequeued ++ [me.out] } }

/-- An action, without the history. -/
def move (s : State ι) : Action ι → Option (State ι)
  | .enqueue i l => if (s.producers i).isIdle then some (s.begin i l) else none
  | .produce i => producerStep s i
  | .dequeue out =>
      if s.consumer.pc = .idle then some { s with consumer := ⟨.readTail s.queue.headId, out⟩ }
      else none
  | .consume => consumerStep s

/-- One step. After each the history looks at the length of the queue. -/
def step (s : State ι) (a : Action ι) : Option (State ι) := (move s a).map State.observe

end Steps

/-- Zeroed memory, and nobody inside a call. -/
def start (ι : Type) : State ι where
  queue := ⟨fun _ => .zero, 0, 0⟩
  producers := fun _ => .idle
  consumer := ⟨.idle, .zero⟩
  history := ⟨[], [], [], fun _ => 0, fun _ => 0, fun _ => false⟩

end TinyServer.Logger
