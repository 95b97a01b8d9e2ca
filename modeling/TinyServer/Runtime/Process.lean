import TinyServer.Lib.Ledger
import TinyServer.Routing.Closing
import TinyServer.Runtime.Pools

/-!
# The process (`main.c`, `runtime.c`, `tiny_worker_main`)

`main` starts the logger, sets up the runtime, starts the workers and, when one of them cannot be
started, takes everything down again, while each worker maps and opens what it needs and gives
it back when it leaves. Each system call is one step, and any of them can fail. The ledger lists
what is mapped, opened and created, what is used and what is given back.

The site is loaded before the first step. What a worker does between two loads of `stop` is one
step here, and so is a round of the logger; their own state is the subject of `TinyServer.Serve`
and `TinyServer.Logger`.
-/

set_option autoImplicit false

namespace TinyServer.Runtime

open TinyServer.Lib TinyServer.Routing TinyServer.Static TinyServer.Net

/-! ## Resources -/

/-- What a thread takes from the system or from its stack. -/
inductive Resource where
  | mapping (addr : Nat) (bytes : UInt64)
  | descriptor (fd : Nat)
  /-- A thread that was created and is to be joined. -/
  | thread (id : Nat)
  /-- The `tiny_runtime` of `main`. -/
  | runtime
  /-- A null pointer or -1: no system call gives it out. -/
  | null
  deriving DecidableEq, Repr

/-- The mappings of `tiny_runtime_init`. -/
inductive Pool where
  | workers
  | slots
  | bump
  | queue
  deriving DecidableEq, Repr

/-- The fields of `tiny_runtime` that all threads use. -/
inductive Shared where
  | pool (x : Pool)
  | wakeFd
  | listenFd
  deriving DecidableEq, Repr

/-- What a worker has of its own. -/
inductive Own where
  | freeStack
  | events
  | epfd
  deriving DecidableEq, Repr

/-- The variables with a resource. `listenFd` is `fd` of `open_listener` as well. -/
inductive Place where
  | runtime
  /-- `logger_thread`; `logger_started` says whether it is set. -/
  | logger
  | shared (x : Shared)
  | thread (i : Nat)
  | own (i : Nat) (x : Own)
  deriving DecidableEq, Repr

/-- The size of a pool. -/
def PoolSizes.bytes (z : PoolSizes) : Pool → UInt64
  | .workers => z.workers
  | .slots => z.slots
  | .bump => z.bump
  | .queue => z.queue

/-- The pools in the order in which they are mapped. -/
def POOLS : List Pool := [.workers, .slots, .bump, .queue]

/-! ## The threads -/

/-- A part of `tiny_runtime_destroy`. -/
inductive Cleanup where
  | shared (x : Shared)
  | routes
  deriving DecidableEq, Repr

/-- What `tiny_runtime_destroy` gives back, in its order. -/
def CLEANUPS : List Cleanup :=
  [.shared .listenFd, .shared .wakeFd, .routes, .shared (.pool .queue), .shared (.pool .bump),
    .shared (.pool .slots), .shared (.pool .workers)]

/-- Where `main` stands: the call that is next. -/
inductive MainPc where
  /-- `pthread_create` in `log_init`. -/
  | logInit
  /-- `check_nofile`, and the sizes. -/
  | start
  /-- `mmap_pool` for what is left of the pools. -/
  | mapping (sizes : PoolSizes) (rest : List Pool)
  /-- `routes_init`. -/
  | routes
  /-- `eventfd`. -/
  | wake
  /-- `socket` in `open_listener`. -/
  | socket
  /-- `inet_pton`, `bind` and `listen`. -/
  | bind
  /-- `pthread_create` for the worker `i`. -/
  | creating (i : Nat)
  /-- The load of the status of the worker `i`. -/
  | checking (i : Nat)
  /-- The loop of `accept4`. -/
  | serving
  /-- `tiny_runtime_destroy`. -/
  | stopping
  /-- `pthread_join` for the worker `i`. -/
  | joining (i : Nat)
  | releasing (rest : List Cleanup)
  /-- `log_shutdown`. -/
  | logShutdown
  /-- `pthread_join` for the logger. -/
  | logJoin
  /-- `main` returns. -/
  | exiting
  | done
  deriving DecidableEq

/-- Where a worker stands in `tiny_worker_main`: the call that is next. `wake` is its copy of
`wake_fd`. -/
inductive ThreadPc where
  | absent
  | start
  /-- `mmap` of the free stack. -/
  | stack (wake : Resource)
  /-- `mmap` of the events. -/
  | events (wake : Resource)
  /-- `epoll_create1`. -/
  | epoll (wake : Resource)
  /-- `epoll_ctl` for the eventfd. -/
  | watch (wake : Resource)
  /-- The load of `stop`. -/
  | top (wake : Resource)
  /-- Gives back what is left, and then sets the status to -1 if it failed. -/
  | leaving (rest : List Own) (failed : Bool)
  | exited
  deriving DecidableEq

/-- Where the logger thread stands. -/
inductive LoggerPc where
  | absent
  | running
  | exited
  deriving DecidableEq, Repr

/-- The variables of the process and the ledger. `counter` of the eventfd, the queue and the
connections are left to `Runtime/Wake.lean`, the queue of the logger to `TinyServer.Logger`. -/
structure Process where
  main : MainPc
  vars : Place → Option Resource
  router : Router
  workersStarted : Nat
  stop : Bool
  status : Nat → Int
  threads : Nat → ThreadPc
  loggerRun : Bool
  logger : LoggerPc
  log : List (Entry Resource)

namespace Process

/-- `main` has loaded its site. -/
def start : Process where
  main := .logInit
  vars := fun _ => none
  router := .start
  workersStarted := 0
  stop := false
  status := fun _ => 0
  threads := fun _ => .absent
  loggerRun := true
  logger := .absent
  log := []

/-- The result of a call is kept in a variable. -/
def take (s : Process) (p : Place) (r : Resource) : Process :=
  { s with vars := Function.update s.vars p (some r), log := s.log ++ [.take r] }

/-- What a variable has is used, whatever it is. -/
def touch (s : Process) (p : Place) : Process :=
  { s with log := s.log ++ [.use ((s.vars p).getD .null)] }

/-- A copy of a variable is used. -/
def useCopy (s : Process) (r : Resource) : Process := { s with log := s.log ++ [.use r] }

/-- What a variable has is given back, whatever it is. -/
def drop (s : Process) (p : Place) : Process :=
  { s with
    vars := Function.update s.vars p none
    log := s.log ++ [.give ((s.vars p).getD .null)] }

/-- What a variable has is given back, if there is something. -/
def release (s : Process) (p : Place) : Process := if s.vars p = none then s else s.drop p

/-- `main` goes on. -/
def goto (s : Process) (pc : MainPc) : Process := { s with main := pc }

/-- The worker `i` goes on. -/
def setThread (s : Process) (i : Nat) (pc : ThreadPc) : Process :=
  { s with threads := Function.update s.threads i pc }

/-- The store of `w->status`. -/
def setStatus (s : Process) (i : Nat) (st : Int) : Process :=
  { s.touch (.shared (.pool .workers)) with status := Function.update s.status i st }

/-- `tiny_runtime_notify`. -/
def runtimeNotify (s : Process) : Process :=
  if s.vars (.shared .wakeFd) = none then s else s.touch (.shared .wakeFd)

end Process

/-! ## `main` -/

/-- `struct rlimit`; `none` is `RLIM_INFINITY`. -/
structure Rlimit where
  cur : Nat
  max : Option Nat
  deriving DecidableEq, Repr

/-- `need` of `check_nofile`. -/
def Config.nofile (cfg : Config) : Nat :=
  cfg.workers.toNat * cfg.connsPerWorker.toNat * 3 + cfg.queueSize.toNat + cfg.workers.toNat * 2 + 64

/-- `check_nofile`, with the results of `getrlimit` and `setrlimit`. -/
def Config.checkNofile (cfg : Config) (limits : Option Rlimit) (raised : Bool) : Bool :=
  match limits with
  | none => false
  | some l =>
      if cfg.nofile ≤ l.cur then true
      else if l.max.any (fun max => decide (max < cfg.nofile)) then false
      else raised

/-- The results of the calls that are next. `value` is an address, a descriptor or the
identifier of a thread; `kinds` and `fds` are those of `routes_init`. -/
structure Replies where
  value : Option Nat
  limits : Option Rlimit
  raised : Bool
  kinds : Nat → Option FileKind
  fds : Nat → Option Nat

/-- The pools and the site that a process is started with. -/
structure Setup where
  cfg : Config
  site : TinySite

namespace Process

/-- `mmap` does not map an empty range. -/
def mmapResult (bytes : UInt64) (addr : Option Nat) : Option Nat := if bytes = 0 then none else addr

/-- One step of `main`; `none` where it waits. -/
def mainStep (su : Setup) (s : Process) (r : Replies) : Option Process :=
  match s.main with
  | .logInit =>
      let s := { s with loggerRun := true }
      match r.value with
      | none => some (s.goto .done)
      | some id => some ({ s.take .logger (.thread id) with logger := .running }.goto .start)
  | .start =>
      let s := s.take .runtime .runtime
      if su.cfg.checkNofile r.limits r.raised then
        match su.cfg.poolSizes with
        | none => some (s.goto .logShutdown)
        | some sizes => some (s.goto (.mapping sizes POOLS))
      else some (s.goto .logShutdown)
  | .mapping sizes (x :: rest) =>
      match mmapResult (sizes.bytes x) r.value with
      | none => some (s.goto (.mapping sizes rest))
      | some addr =>
          some ((s.take (.shared (.pool x)) (.mapping addr (sizes.bytes x))).goto (.mapping sizes rest))
  | .mapping _ [] =>
      if POOLS.all (fun x => (s.vars (.shared (.pool x))).isSome) then
        -- the pools are cleared and divided
        let s := POOLS.foldl (fun s x => s.touch (.shared (.pool x))) s
        some (s.goto .routes)
      else some (s.goto .stopping)
  | .routes =>
      let res := Router.routesInit r.kinds r.fds (some su.site) s.router
      let s := { s with router := res.2 }
      match res.1 with
      | .error _ => some (s.goto .stopping)
      | .ok _ => some (s.goto .wake)
  | .wake =>
      match r.value with
      | none => some (s.goto .stopping)
      | some fd => some ((s.take (.shared .wakeFd) (.descriptor fd)).goto .socket)
  | .socket =>
      match r.value with
      | none => some (s.goto .stopping)
      | some fd => some ((s.take (.shared .listenFd) (.descriptor fd)).goto .bind)
  | .bind =>
      let s := s.touch (.shared .listenFd)
      match r.value with
      | none => some ((s.drop (.shared .listenFd)).goto .stopping)
      | some _ => some (s.goto (.creating 0))
  | .creating i =>
      if i < su.cfg.workers.toNat then
        match r.value with
        | none =>
            let s := { s with workersStarted := i, stop := true }
            some (s.runtimeNotify.goto .stopping)
        | some id =>
            let s := (s.touch (.shared (.pool .workers))).take (.thread i) (.thread id)
            let s := { s.setThread i .start with workersStarted := i + 1 }
            some (s.goto (.creating (i + 1)))
      else some (s.goto (.checking 0))
  | .checking i =>
      if i < su.cfg.workers.toNat then
        let s := s.touch (.shared (.pool .workers))
        if s.status i = 1 then some (s.goto (.checking (i + 1)))
        else if s.status i < 0 then
          let s := { s with stop := true }
          some (s.runtimeNotify.goto .stopping)
        else some s
      else some (s.goto .serving)
  | .serving =>
      if s.stop then some (s.goto .stopping)
      else
        let s := s.touch (.shared .listenFd)
        match r.value with
        | none => some s
        | some _ => some ((s.touch (.shared (.pool .queue))).runtimeNotify)
  | .stopping =>
      let s := { s with stop := true }
      let s := s.runtimeNotify
      if s.vars (.shared (.pool .workers)) ≠ none ∧ 0 < s.workersStarted then some (s.goto (.joining 0))
      else some (s.goto (.releasing CLEANUPS))
  | .joining i =>
      if i < s.workersStarted then
        if s.threads i = .exited then
          some (((s.touch (.shared (.pool .workers))).drop (.thread i)).goto (.joining (i + 1)))
        else none
      else some ({ s with workersStarted := 0 }.goto (.releasing CLEANUPS))
  | .releasing (.shared x :: rest) => some ((s.release (.shared x)).goto (.releasing rest))
  | .releasing (.routes :: rest) =>
      some ({ s with router := s.router.routesShutdown }.goto (.releasing rest))
  | .releasing [] => some (s.goto .logShutdown)
  | .logShutdown =>
      if s.vars .logger = none then some (s.goto .exiting)
      else some ({ s with loggerRun := false }.goto .logJoin)
  | .logJoin => if s.logger = .exited then some ((s.drop .logger).goto .exiting) else none
  | .exiting => some ((s.drop .runtime).goto .done)
  | .done => none

end Process

/-! ## The workers -/

/-- The size of the free stack. -/
def Config.freeBytes (cfg : Config) : Option UInt64 :=
  if UINT16_MAX < cfg.connsPerWorker.toNat then none else tinySizeMul cfg.connsPerWorker 2

/-- The size of a worker's array of events. -/
def Config.eventsBytes (cfg : Config) : Option UInt64 := tinySizeMul cfg.eventsMax cfg.eventBytes

namespace Process

/-- The worker returns without anything to give back. -/
def failAtOnce (s : Process) (i : Nat) : Process := (s.setStatus i (-1)).setThread i .exited

/-- What a worker uses between two loads of `stop`. -/
def serve (s : Process) (i : Nat) (wake : Resource) : Process :=
  let s := [Place.shared (.pool .workers), .shared (.pool .slots), .shared (.pool .bump),
    .shared (.pool .queue), .own i .freeStack, .own i .events, .own i .epfd].foldl touch s
  s.useCopy wake

/-- One step of the worker `i`; `none` where there is no such thread. -/
def threadStep (su : Setup) (s : Process) (i : Nat) (value : Option Nat) : Option Process :=
  match s.threads i with
  | .absent => none
  | .start =>
      -- `w->rt`, `w->slots` and `rt->wake_fd`
      let s := (s.touch (.shared (.pool .workers))).touch .runtime
      some (s.setThread i (.stack ((s.vars (.shared .wakeFd)).getD .null)))
  | .stack wake =>
      match su.cfg.freeBytes with
      | none => some (s.failAtOnce i)
      | some bytes =>
          match mmapResult bytes value with
          | none => some (s.failAtOnce i)
          | some addr =>
              let s := (s.touch (.shared (.pool .workers))).take (.own i .freeStack) (.mapping addr bytes)
              some ((s.touch (.own i .freeStack)).setThread i (.events wake))
  | .events wake =>
      match su.cfg.eventsBytes with
      | none => some (s.setThread i (.leaving [.freeStack] true))
      | some bytes =>
          match mmapResult bytes value with
          | none => some (s.setThread i (.leaving [.freeStack] true))
          | some addr => some ((s.take (.own i .events) (.mapping addr bytes)).setThread i (.epoll wake))
  | .epoll wake =>
      match value with
      | none => some (s.setThread i (.leaving [.events, .freeStack] true))
      | some fd => some ((s.take (.own i .epfd) (.descriptor fd)).setThread i (.watch wake))
  | .watch wake =>
      let s := (s.touch (.own i .epfd)).useCopy wake
      match value with
      | none => some (s.setThread i (.leaving [.epfd, .events, .freeStack] true))
      | some _ => some ((s.setStatus i 1).setThread i (.top wake))
  | .top wake =>
      let s := s.touch .runtime
      if s.stop then
        let s := s.touch (.shared (.pool .slots))
        some (s.setThread i (.leaving [.epfd, .events, .freeStack] false))
      else
        let s := s.serve i wake
        match value with
        | none => some (s.setThread i (.leaving [.epfd, .events, .freeStack] false))
        | some _ => some s
  | .leaving (x :: rest) failed => some ((s.drop (.own i x)).setThread i (.leaving rest failed))
  | .leaving [] true => some (s.failAtOnce i)
  | .leaving [] false => some (s.setThread i .exited)
  | .exited => none

end Process

/-- A round of the loops of `logger`, which leaves the second one when the queue is empty. -/
def Process.loggerStep (s : Process) (empty : Bool) : Option Process :=
  match s.logger with
  | .running => if !s.loggerRun && empty then some { s with logger := .exited } else some s
  | .absent | .exited => none

/-- The thread that moves, and the results of its calls. -/
inductive ProcessAction where
  | main (r : Replies)
  | thread (i : Nat) (value : Option Nat)
  | logger (empty : Bool)

/-- One step of the process. -/
def Process.step (su : Setup) (s : Process) : ProcessAction → Option Process
  | .main r => s.mainStep su r
  | .thread i value => s.threadStep su i value
  | .logger empty => s.loggerStep empty

end TinyServer.Runtime
