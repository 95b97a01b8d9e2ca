import TinyServer.Lib.Run
import TinyServer.Serve.Turn

/-!
# The worker (`worker.c`)

A worker owns its slots, its idle pool and its open-file cache. It takes connections off
the queue, handles one epoll event at a time and closes slots whose deadline is over.
`Worker.step` is one of these; the socket and file-system results that the step meets
come with the action, and the batches of `epoll_wait` are runs of event actions.
-/

set_option autoImplicit false

namespace TinyServer.Serve

open TinyServer.Http TinyServer.Net TinyServer.Proxy TinyServer.Static TinyServer.Routing

/-- A connection that waited longer in the queue is dropped. -/
def TINY_QUEUE_TIMEOUT_MS : Nat := 5000

/-- `tiny_slot`. Its wire has no control calls: those of the worker are kept together. -/
structure Slot where
  active : Bool
  armedIo : HttpIo
  proxying : Bool
  arena : Nat
  hc : HttpConn
  px : ProxyConn
  wrapped : Bool
  wire : Wire
  trail : Trail
  deriving DecidableEq, Repr

/-- The connection of a slot that was never used. -/
def unusedConn : HttpConn where
  fd := none
  buf := []
  headerCap := 0
  readTimeoutMs := 0
  sendTimeoutMs := 0
  keepaliveMs := 0
  req := .zero
  phase := .read
  sendBody := false
  corkOn := false
  keep := false
  fileOwned := false
  statusCode := 0
  deadlineMs := 0
  lastActiveMs := 0
  fixed := []
  fixedOff := 0
  outHdr := []
  outHdrOff := 0
  fileFd := none
  fileSize := 0
  fileOff := 0

/-- A slot that was never used. -/
def Slot.unused : Slot where
  active := false
  armedIo := .done
  proxying := false
  arena := 0
  hc := unusedConn
  px := .zero
  wrapped := false
  wire := .empty
  trail := .empty

/-- `tiny_worker` with the thread-local pool and cache. -/
structure Worker where
  slots : List Slot
  pool : List ProxyIdle
  cache : FileCache
  calls : List ControlCall
  freeStack : List Nat
  nactive : Nat
  exited : Bool
  deriving DecidableEq

/-- The worker before its first connection. -/
def Worker.start (slotCount : Nat) : Worker where
  slots := List.replicate slotCount .unused
  pool := []
  cache := .fresh
  calls := []
  freeStack := List.range slotCount
  nactive := 0
  exited := false

/-- An epoll event for the client or the upstream socket of a slot. `err` stands for any
of `EPOLLERR`, `EPOLLHUP` and `EPOLLRDHUP`. -/
structure Event where
  upstream : Bool
  idx : Nat
  inp : Bool
  out : Bool
  err : Bool
  deriving DecidableEq, Repr

/-! ## One slot -/

namespace Turn

/-- `slot_close`. -/
def slotClose (idx : Nat) (t : Turn) : Turn :=
  if !t.active then t
  else
    -- `proxy_close` comes first, whether or not there is an exchange
    let t := { t.withWorld t.world.proxyClose with proxying := false }
    let t := t.withHandler t.toHandler.httpConnCleanup
    -- `EPOLL_CTL_DEL`, then `close`
    let t := match t.hc.fd with
      | none => t
      | some fd => { t with
          kernel := (t.kernel.epollCtl fd .del).2.close fd
          hc := { t.hc with fd := none } }
    { t with
      active := false
      armedIo := .done
      freeStack := idx :: t.freeStack
      nactive := t.nactive - 1 }

/-- The events of the client socket that `arm_events` asks for. -/
def interestOf : HttpIo → Option Interest
  | .wantRead => some ⟨true, false⟩
  | .wantWrite => some ⟨false, true⟩
  | .idle => some ⟨false, false⟩
  | _ => none

/-- `arm_events`. -/
def armEvents (idx : Nat) (io : HttpIo) (t : Turn) : Turn :=
  if t.armedIo = io then t
  else
    match interestOf io, t.hc.fd with
    | some interest, some fd =>
        let r := t.kernel.epollCtl fd (.mod interest)
        if r.1 then { t with kernel := r.2, armedIo := io }
        else slotClose idx { t with kernel := r.2 }
    | _, _ => slotClose idx t

/-- The loop of `apply_io`; `none` when the fuel does not end it. -/
def doneLoop (site : Site) (fuel now : Nat) : Nat → HttpIo → Turn → Option (HttpIo × Turn)
  | 0, .done, _ => none
  | n + 1, .done, t =>
      match t.httpConnReuse site fuel now with
      | none => none
      | some (io, t) => doneLoop site fuel now n io t
  | _, io, t => some (io, t)

/-- `apply_io`. -/
def applyIo (site : Site) (fuel now idx : Nat) (io : HttpIo) (t : Turn) : Option Turn :=
  (doneLoop site fuel now fuel io t).map fun r =>
    if r.1 = .close then slotClose idx r.2
    else if !r.2.active then r.2
    else armEvents idx r.1 r.2

/-- The call of `proxy_pump` for an event of a proxied slot. -/
def pump (fuel now : Nat) (t : Turn) : Option (HttpIo × Turn) :=
  (t.world.proxyPump fuel now).map fun p =>
    (p.1, { t.withWorld p.2 with proxying := p.2.px.fd.isSome })

/-- The reading half of an event of a slot that is not proxied. -/
def onReadEvent (site : Site) (fuel now : Nat) (ev : Event) (t : Turn) : Option Turn :=
  if ev.inp ∧ t.hc.phase = .read then
    match t.httpConnOnRead site fuel now with
    | none => none
    | some (io, t) => applyIo site fuel now ev.idx io t
  else some t

/-- The writing half. -/
def onWriteEvent (site : Site) (fuel now : Nat) (ev : Event) (t : Turn) : Option Turn :=
  if ev.out ∧ t.hc.phase ≠ .read then
    let r := t.onWrite now
    applyIo site fuel now ev.idx r.1 r.2
  else some t

/-- The body of the event loop for an active slot. -/
def onEvent (site : Site) (fuel now : Nat) (ev : Event) (t : Turn) : Option Turn :=
  if ev.upstream ∨ t.proxying then
    -- an error on the client's socket while the exchange waits for the upstream
    if !ev.upstream ∧ ev.err ∧ !ev.inp ∧ !ev.out then some (slotClose ev.idx t)
    else
      match pump fuel now t with
      | none => none
      | some (io, t) => applyIo site fuel now ev.idx io t
  else if ev.err ∧ !ev.inp ∧ !ev.out then some (slotClose ev.idx t)
  else
    match onReadEvent site fuel now ev t with
    | none => none
    -- The read may have closed the slot.
    | some t => if !t.active then some t else onWriteEvent site fuel now ev t

/-- The slot of a new connection, before `http_conn_on_read`. -/
def accepted (fd now : Nat) (free : List Nat) (t : Turn) : Turn :=
  { t with
    freeStack := free
    arena := 0
    proxying := false
    px := { t.px with fd := none }
    wrapped := false
    -- the fields of the slot that the accept resets
    hc := httpConnPrepare { t.hc with fd := some fd, fileFd := none } now
    kernel := { t.kernel with wire := .empty }
    trail := .empty }

end Turn

/-! ## The worker -/

namespace Worker

/-- The state in which a handler of the slot `s` starts. -/
def load (w : Worker) (s : Slot) (sched : Schedule) (disk : Disk) : Turn where
  hc := s.hc
  arena := s.arena
  cache := w.cache
  disk := disk
  kernel := ⟨sched, s.wire⟩
  px := s.px
  pool := w.pool
  wrapped := s.wrapped
  proxying := s.proxying
  active := s.active
  armedIo := s.armedIo
  trail := s.trail
  calls := w.calls
  freeStack := w.freeStack
  nactive := w.nactive

/-- The slot as a handler leaves it. -/
def slotOf (t : Turn) : Slot where
  active := t.active
  armedIo := t.armedIo
  proxying := t.proxying
  arena := t.arena
  hc := t.hc
  px := t.px
  wrapped := t.wrapped
  wire := { t.kernel.wire with calls := [] }
  trail := t.trail

/-- The worker after a handler of the slot `idx`. -/
def store (w : Worker) (idx : Nat) (t : Turn) : Worker :=
  { w with
    slots := w.slots.set idx (slotOf t)
    pool := t.pool
    cache := t.cache
    calls := t.log
    freeStack := t.freeStack
    nactive := t.nactive }

/-- A call of the worker's own. -/
def call (w : Worker) (c : ControlCall) : Worker := { w with calls := w.calls ++ [c] }

/-- Run a handler on an active slot. -/
def onSlot (w : Worker) (idx : Nat) (sched : Schedule) (disk : Disk)
    (f : Turn → Option Turn) : Option Worker :=
  match w.slots[idx]? with
  | none => some w
  | some s => if !s.active then some w else (f (w.load s sched disk)).map (w.store idx)

/-- `try_accept_one` for the connection `fd` that the queue gives, if it gives one. -/
def tryAcceptOne (site : Site) (fuel : Nat) (w : Worker) (fd : Option Nat)
    (acceptTime now : Nat) (sched : Schedule) (disk : Disk) : Option Worker :=
  -- no free slot: the connection stays in the queue
  match w.freeStack with
  | [] => none
  | idx :: free =>
      match fd with
      | none => some w
      | some fd =>
          let w := w.call (.accept fd)
          -- it waited in the queue for longer than `TINY_QUEUE_TIMEOUT_MS`
          if acceptTime < now ∧ TINY_QUEUE_TIMEOUT_MS < now - acceptTime then
            some (w.call (.close fd))
          else
            match w.slots[idx]? with
            | none => none
            | some s =>
                let t := (w.load s sched disk).accepted fd now free
                let r := t.kernel.epollCtl fd (.add ⟨true, false⟩)
                let t := { t with kernel := r.2 }
                -- `EPOLL_CTL_ADD` failed: the slot goes back on the stack
                if !r.1 then
                  let t := t.withHandler t.toHandler.httpConnCleanup
                  some (w.store idx { t with
                    freeStack := idx :: t.freeStack
                    kernel := t.kernel.close fd })
                else
                  -- the first read is tried at once, without waiting for an event
                  let t := { t with
                    active := true
                    armedIo := .wantRead
                    nactive := t.nactive + 1 }
                  match t.httpConnOnRead site fuel now with
                  | none => none
                  | some (io, t) => (t.applyIo site fuel now idx io).map (w.store idx)

/-- Close the slot `idx` where `close` says so. -/
def closeSlot (close : Slot → Bool) (w : Worker) (idx : Nat) : Worker :=
  match w.slots[idx]? with
  | none => w
  | some s =>
      if s.active && close s then w.store idx ((w.load s .quiet .quiet).slotClose idx) else w

/-- `sweep_deadlines`. -/
def sweepDeadlines (w : Worker) (now : Nat) : Worker :=
  if w.nactive = 0 then w
  else (List.range w.slots.length).foldl (closeSlot fun s => decide (s.hc.deadlineMs ≤ now)) w

/-- `proxy_pool_clear`. -/
def proxyPoolClear (w : Worker) : Worker :=
  { w with pool := [], calls := w.calls ++ w.pool.reverse.map fun e => .close e.fd }

/-- `static_cache_clear` on the tables of the worker. -/
def staticCacheClear (w : Worker) : Worker :=
  let h : Handler := ⟨unusedConn, 0, w.cache, .quiet, ⟨.quiet, .empty⟩⟩
  let h := h.staticCacheClear
  { w with cache := h.cache, calls := w.calls ++ h.kernel.wire.calls }

/-- The end of `tiny_worker_main`. -/
def exit (w : Worker) : Worker :=
  let w := (List.range w.slots.length).foldl (closeSlot fun _ => true) w
  { w.staticCacheClear.proxyPoolClear with exited := true }

end Worker

/-- What a worker does next. -/
inductive Action where
  | accept (fd : Option Nat) (acceptTime now : Nat) (sched : Schedule) (disk : Disk)
  | event (ev : Event) (now : Nat) (sched : Schedule) (disk : Disk)
  | sweep (now : Nat)
  | exit

/-- One step of a worker. `fuel` bounds every loop inside a step; a step is not enabled
where it does not suffice. -/
def Worker.step (site : Site) (fuel : Nat) (w : Worker) (a : Action) : Option Worker :=
  if w.exited then none
  else
    match a with
    | .accept fd acceptTime now sched disk =>
        w.tryAcceptOne site fuel fd acceptTime now sched disk
    | .event ev now sched disk => w.onSlot ev.idx sched disk (Turn.onEvent site fuel now ev)
    | .sweep now => some (w.sweepDeadlines now)
    | .exit => some w.exit

end TinyServer.Serve
