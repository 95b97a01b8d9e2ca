import TinyServer.Logger.Delivery

/-!
# The logger thread (`logger.c`)

`log_init` creates a thread that runs `logger`: it writes to `stdout` what `dequeue_log`
returns, and flushes after `LOG_FLUSH_EVERY` messages and whenever the queue is empty.
`log_shutdown` clears `logger_run` and joins the thread, which empties the queue first.
Threads log all the while; their calls and the shared accesses of `dequeue_log` are steps of
`Logger/Queue.lean`.

Here `dequeue_log` is complete: a call that finds its slot not ready counts its rounds, and
after 64 of them looks whether the logger still runs. If not, and the slot is still not
ready, it gives up. `stdout` takes every byte, and `flushed` is what is known to be out.
-/

set_option autoImplicit false

namespace TinyServer.Logger

open TinyServer.Lib
open TinyServer.Queue (slotOf)

/-- After so many messages the first loop flushes. -/
def LOG_FLUSH_EVERY : Nat := 32

/-- The length that `tiny_log` stores for a text of `n` bytes. -/
def messageLength (n : Nat) : Fin LOG_MESSAGE_SIZE :=
  if h : n < LOG_MESSAGE_SIZE then ⟨n, h⟩ else ⟨LOG_MESSAGE_SIZE - 1, by decide⟩

/-- The entry that `tiny_log` makes of the formatted text, of which `vsnprintf` stores what
fits with a NUL behind; `none` where the formatting fails. -/
def tinyLogEntry (level : LogLevel) (text : Option (List UInt8)) : Option LogEntry :=
  text.map fun bytes =>
    { level := level
      ready := false
      len := messageLength bytes.length
      message := fun k => if k.val + 1 < LOG_MESSAGE_SIZE then bytes.getD k.val 0 else 0 }

/-- Where the logger thread stands: the access that is next. `last` in the second loop of
`logger`. -/
inductive LoggerPc where
  | absent
  /-- The load of `logger_run` in the condition of the first loop. -/
  | top
  /-- The call of `dequeue_log`, with its first load. -/
  | calling (last : Bool)
  /-- In `dequeue_log`, at the access that `ConsumerPc` says. -/
  | inside (last : Bool) (spins : Nat)
  /-- In `dequeue_log` after 64 rounds: the load of `logger_run`. -/
  | checkRun (last : Bool)
  /-- The load of `ready` that follows. -/
  | checkReady (last : Bool)
  /-- `dequeue_log` returned 1; `fwrite` is next. -/
  | writing (last : Bool)
  /-- The test of `since_flush` behind it. -/
  | wrote
  /-- `dequeue_log` returned 0 in the first loop; the flush is next. -/
  | resting
  /-- In `usleep`. -/
  | sleeping
  /-- The `fflush` at the end. -/
  | closing
  | returned
  deriving DecidableEq, Repr

/-- Behind a call of `dequeue_log` that returned 0. -/
def LoggerPc.behind (last : Bool) : LoggerPc := if last then .closing else .resting

/-- The log with its threads. `joining`: `log_shutdown` stands in `pthread_join`. -/
structure Logging (ι : Type) where
  queue : State ι
  run : Bool
  started : Bool
  joining : Bool
  thread : LoggerPc
  sinceFlush : Nat
  written : List UInt8
  flushed : List UInt8

/-- `init` has what `pthread_create` returns. -/
inductive LoggingAction (ι : Type) where
  | init (created : Bool)
  | shutdown
  | join
  | log (i : ι) (level : LogLevel) (text : Option (List UInt8))
  | produce (i : ι)
  | logger
  deriving DecidableEq

/-- A step of the logger thread. -/
def LoggingAction.isLogger {ι : Type} : LoggingAction ι → Bool
  | .logger => true
  | _ => false

namespace Logging

section Steps

variable {ι : Type}

/-- The thread goes on. -/
def goto (pc : LoggerPc) (s : Logging ι) : Logging ι := { s with thread := pc }

/-- The `ready` of the slot that `dequeue_log` waits for. -/
def headReady (s : Logging ι) : Bool :=
  match s.queue.consumer.pc with
  | .waiting head => (s.queue.queue.slot head).ready
  | _ => false

/-- `fflush`. -/
def flush (s : Logging ι) : Logging ι := { s with flushed := s.written, sinceFlush := 0 }

/-- `dequeue_log` returns 0 without its message. -/
def giveUp (last : Bool) (s : Logging ι) : Logging ι :=
  { s with
    queue := { s.queue with consumer := { s.queue.consumer with pc := .idle } }
    thread := .behind last }

/-- `fwrite`. -/
def write (last : Bool) (s : Logging ι) : Logging ι :=
  let s := { s with written := s.written ++ s.queue.consumer.out.text }
  if last then s.goto (.calling true) else { s.goto .wrote with sinceFlush := s.sinceFlush + 1 }

variable [DecidableEq ι]

/-- A step of the queue. -/
def onQueue (s : Logging ι) (a : Action ι) : Option (Logging ι) :=
  (Logger.step s.queue a).map fun q => { s with queue := q }

/-- A step inside `dequeue_log`. -/
def insideStep (s : Logging ι) (last : Bool) (spins : Nat) : Option (Logging ι) :=
  match s.queue.consumer.pc with
  | .idle => none
  | .readTail _ => (s.onQueue .consume).map fun t =>
      t.goto (if t.queue.consumer.pc = .idle then .behind last else .inside last 0)
  -- 64 rounds of `sched_yield`, then `usleep` and a look at `logger_run`
  | .waiting _ =>
      if s.headReady then s.onQueue .consume
      else if spins < 64 then some (s.goto (.inside last (spins + 1)))
      else some (s.goto (.checkRun last))
  | .sawReady _ => s.onQueue .consume
  | .copied _ => s.onQueue .consume
  | .cleared _ => (s.onQueue .consume).map (goto (.writing last))

/-- A step of `logger`. -/
def loggerStep (s : Logging ι) : Option (Logging ι) :=
  match s.thread with
  | .absent => none
  | .top => some (s.goto (.calling !s.run))
  | .calling last => (s.onQueue (.dequeue s.queue.consumer.out)).map (goto (.inside last 0))
  | .inside last spins => s.insideStep last spins
  | .checkRun last => some (s.goto (if s.run then .inside last 1 else .checkReady last))
  | .checkReady last => some (if s.headReady then s.goto (.inside last 1) else s.giveUp last)
  | .writing last => some (s.write last)
  | .wrote => some (goto .top (if LOG_FLUSH_EVERY ≤ s.sinceFlush then s.flush else s))
  | .resting => some (goto .sleeping (if 0 < s.sinceFlush then s.flush else s))
  | .sleeping => some (s.goto .top)
  | .closing => some (goto .returned s.flush)
  | .returned => none

/-- `log_init`, `log_shutdown` up to the join and its return, and the steps of the threads. There
is one logger thread: `main` calls `log_init` once, and here it is called only where there is no
such thread. The code does not check that. -/
def step (s : Logging ι) : LoggingAction ι → Option (Logging ι)
  | .init created =>
      -- `main` calls it once, before there is a logger thread
      if s.thread = .absent ∧ s.joining = false then
        some { s with
          run := true
          started := created
          thread := if created then .top else .absent
          sinceFlush := 0 }
      else none
  | .shutdown =>
      if s.joining then none
      -- without a thread there is nothing to stop
      else if s.started then some { s with run := false, joining := true }
      else some s
  | .join =>
      if s.joining ∧ s.thread = .returned then
        some { s with started := false, joining := false, thread := .absent }
      else none
  | .log i level text =>
      match tinyLogEntry level text with
      -- the level is off, and no message is made
      | none => some s
      | some l => s.onQueue (.enqueue i l)
  | .produce i => s.onQueue (.produce i)
  | .logger => s.loggerStep

end Steps

/-- A new process: `logger_run` is 1. -/
def start (ι : Type) : Logging ι where
  queue := Logger.start ι
  run := true
  started := false
  joining := false
  thread := .absent
  sinceFlush := 0
  written := []
  flushed := []

end Logging

end TinyServer.Logger
