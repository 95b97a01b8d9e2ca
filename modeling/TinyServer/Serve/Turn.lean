import TinyServer.Net.Descriptors
import TinyServer.Proxy.Pump
import TinyServer.Routing.Table
import TinyServer.Static.Serve

/-!
# The requests of one connection (`http.c`, `routes.c`)

`Turn` is what a worker reads and writes while it handles one slot: the handler's state
with the slot's proxy state, the idle pool, the bookkeeping of the worker, and a record
of what happened that no code reads.

The wire of the kernel covers the request that is being answered. When the next one is
dispatched, what the wire recorded moves to the record of the connection (`settle`).
-/

set_option autoImplicit false

namespace TinyServer.Serve

open TinyServer.Http TinyServer.Net TinyServer.Proxy TinyServer.Static TinyServer.Routing

/-! ## Texts -/

/-- The answer to bytes that are no request. -/
def RESPONSE_400 : List UInt8 :=
  cstr "HTTP/1.1 400 Bad Request\r\nContent-Length: 0\r\nConnection: close\r\n\r\n"

/-- The answer to a head that does not fit. -/
def RESPONSE_431 : List UInt8 :=
  cstr ("HTTP/1.1 431 Request Header Fields Too Large\r\nContent-Length: 0\r\n" ++
    "Connection: close\r\n\r\n")

/-- The answer to a request that the parser does not support. -/
def RESPONSE_501 : List UInt8 :=
  cstr "HTTP/1.1 501 Not Implemented\r\nContent-Length: 0\r\nConnection: close\r\n\r\n"

/-- The answer to a path without a route. -/
def RESP_404 : List UInt8 :=
  cstr "HTTP/1.1 404 Not Found\r\nContent-Length: 0\r\nConnection: close\r\n\r\n"

/-- The answer where a path cannot be built. -/
def RESP_500 : List UInt8 :=
  cstr "HTTP/1.1 500 Internal Server Error\r\nContent-Length: 0\r\nConnection: close\r\n\r\n"

/-- The answer of a route to an application. -/
def RESP_501 : List UInt8 :=
  cstr "HTTP/1.1 501 Not Implemented\r\nContent-Length: 0\r\nConnection: close\r\n\r\n"

/-- The size of the header buffer. -/
def TINY_HEADER_SIZE : Nat := 4096

/-- How long a request may take to come. -/
def TINY_READ_TIMEOUT_MS : Nat := 10000

/-- How long a response may take to go out. -/
def TINY_SEND_TIMEOUT_MS : Nat := 30000

/-- How long a connection may wait for its next request. -/
def TINY_KEEPALIVE_MS : Nat := 15000

/-! ## The state -/

/-- A request handed to `route_begin`: the bytes of its head, how much was in the buffer,
and whether a proxied exchange was still going on. -/
structure Routed where
  req : HttpRequest
  head : List UInt8
  used : Nat
  busy : Bool
  deriving DecidableEq, Repr

/-- A response that ended in `HTTP_IO_DONE`: what was sent for the request, `hc->keep`,
whether `http_conn_reuse` went on with the connection, the upstream connections that were
used, and whether the newest of them is in the idle pool. -/
structure Answer where
  req : HttpRequest
  out : List UInt8
  keep : Bool
  continued : Bool
  conns : List UpstreamConn
  pooled : Bool
  deriving DecidableEq, Repr

/-- What `proxy_pool_take` gives for the address of a request, and the address that this
socket was connected to. -/
structure Take where
  fd : Nat
  addr : List UInt8
  len : Nat
  peer : Option (List UInt8)
  deriving DecidableEq, Repr

/-- The record of a connection: the bytes the client sent before those of the current
wire, the requests routed, the responses completed and the idle sockets found for its
requests. -/
structure Trail where
  arrived : List UInt8
  routed : List Routed
  answers : List Answer
  takes : List Take
  deriving DecidableEq, Repr

/-- A connection without a request. -/
def Trail.empty : Trail := ⟨[], [], [], []⟩

/-- `calls` lists the worker's control calls before those of the current wire. The free
stack is listed from its top. -/
structure Turn extends Handler where
  px : ProxyConn
  pool : List ProxyIdle
  wrapped : Bool
  proxying : Bool
  active : Bool
  armedIo : HttpIo
  trail : Trail
  calls : List ControlCall
  freeStack : List Nat
  nactive : Nat

/-- `reset_request_state`. -/
def resetRequestState (hc : HttpConn) (now idle : Nat) : HttpConn :=
  { hc with
    req := .zero
    phase := .read
    deadlineMs := now + idle
    lastActiveMs := now
    fixed := []
    fixedOff := 0
    outHdr := []
    outHdrOff := 0
    fileFd := none
    fileSize := 0
    fileOff := 0
    fileOwned := true
    sendBody := false
    corkOn := false
    keep := false
    statusCode := 0 }

/-- `http_conn_prepare`. It cannot fail. -/
def httpConnPrepare (hc : HttpConn) (now : Nat) : HttpConn :=
  let hc := { hc with
    buf := []
    headerCap := TINY_HEADER_SIZE
    readTimeoutMs := TINY_READ_TIMEOUT_MS
    sendTimeoutMs := TINY_SEND_TIMEOUT_MS
    keepaliveMs := TINY_KEEPALIVE_MS }
  resetRequestState hc now hc.readTimeoutMs

namespace Turn

/-- What the proxy functions read and write. -/
def world (t : Turn) : World := ⟨t.hc, t.px, t.pool, t.kernel, t.wrapped⟩

/-- The handler after a call of the proxy. -/
def withWorld (t : Turn) (w : World) : Turn :=
  { t with hc := w.hc, px := w.px, pool := w.pool, kernel := w.kernel, wrapped := w.wrapped }

/-- The handler after a call of the static files. -/
def withHandler (t : Turn) (h : Handler) : Turn := { t with toHandler := h }

/-- All control calls so far. -/
def log (t : Turn) : List ControlCall := t.calls ++ t.kernel.wire.calls

/-- All bytes read from the client so far. -/
def arrived (t : Turn) : List UInt8 := t.trail.arrived ++ t.kernel.wire.clientIn

/-- A new request starts: its wire is empty. -/
def settle (t : Turn) : Turn :=
  { t with
    calls := t.log
    trail := { t.trail with arrived := t.arrived }
    kernel := { t.kernel with wire := .empty } }

/-- `arm_fixed_close` of `http.c` and `arm_close` of `routes.c`. -/
def armClose (t : Turn) (resp : List UInt8) (status now : Nat) : Turn :=
  { t with hc := armFixed t.hc resp status now }

/-- `http_conn_on_write`. -/
def onWrite (t : Turn) (now : Nat) : HttpIo × Turn :=
  let r := t.toHandler.httpConnOnWrite now
  (r.1, t.withHandler r.2)

/-! ## Routing -/

/-- `serve_mount`. -/
def serveMount (site : Site) (t : Turn) (r : Route) (path : List UInt8) (now : Nat) : Turn :=
  -- a trailing slash of the prefix is left to the rest of the path
  let cut := if 0 < r.pathPrefix.length ∧
      r.pathPrefix[r.pathPrefix.length - 1]? = some SLASH then r.pathPrefix.length - 1
    else r.pathPrefix.length
  let loc := requestPath t.hc
  -- the bare prefix is served as the root of the mount
  if path.length ≤ cut then
    t.withHandler (t.toHandler.staticServe site.allowDotfiles r.dirFd false [SLASH] 1 path now)
  else if path[cut]? ≠ some SLASH then t.armClose RESP_500 500 now
  else
    -- the rest of the path, with its slash
    t.withHandler (t.toHandler.staticServe site.allowDotfiles r.dirFd false (loc.1.drop cut)
      (UInt16.ofNat (path.length - cut)) path now)

/-- The idle sockets that `proxy_begin` can take for the route `r`: one or none. -/
def takes (t : Turn) (r : Route) : List Take :=
  match (proxyPoolTake t.pool r.upstream r.upstreamLen).1 with
  | none => []
  | some fd => [⟨fd, r.upstream, r.upstreamLen, connectedTo fd t.log⟩]

/-- `proxy_begin` as `route_begin` calls it. -/
def proxyBegin (fuel : Nat) (t : Turn) (r : Route) (now : Nat) : Option (HttpIo × Turn) :=
  let t := { t with trail := { t.trail with takes := t.trail.takes ++ t.takes r } }
  (t.world.proxyBegin fuel r.upstream r.upstreamLen now).map fun p =>
    (p.1, { t.withWorld p.2 with proxying := p.2.px.fd.isSome })

/-- `route_begin`. The worker has bound the slot. -/
def routeBegin (site : Site) (fuel : Nat) (t : Turn) (now : Nat) : Option (HttpIo × Turn) :=
  -- what the record keeps of the dispatch
  let routed : Routed :=
    ⟨t.hc.req, t.hc.buf.take t.hc.req.headerBytes, t.hc.used, t.px.fd.isSome⟩
  let t := { t with trail := { t.trail with routed := t.trail.routed ++ [routed] } }
  let static := fun _ : Unit => (HttpIo.wantWrite,
    t.withHandler (t.toHandler.staticBegin site.allowDotfiles site.docroot now))
  -- the one route is the docroot, and nothing needs to be matched
  if site.routes.length = 1 ∧ site.routes.head?.any (·.primary) then some (static ())
  else
    let loc := requestPath t.hc
    let path := loc.1.take loc.2.toNat
    match routeMatch site path with
    | none => some (.wantWrite, t.armClose RESP_404 404 now)
    | some r =>
        match r.type with
        | .static =>
            if r.exact then
              some (.wantWrite, t.withHandler (t.toHandler.staticBeginFile r.target now))
            else if r.primary then some (static ())
            else some (.wantWrite, serveMount site t r path now)
        | .proxy => t.proxyBegin fuel r now
        | .app => some (.wantWrite, t.armClose RESP_501 501 now)
        | .none => some (.wantWrite, t.armClose RESP_500 500 now)

/-! ## Requests -/

/-- The answer to a head that does not fit. An exchange that is going on keeps its wire. -/
def refuseHead (t : Turn) (now : Nat) : HttpIo × Turn :=
  let t := if t.px.fd.isSome then t else t.settle
  (t.armClose RESPONSE_431 431 now).onWrite now

/-- `dispatch_parsed`. A failing parse leaves parts of a request in `hc->req`, which
nothing reads before the next parse. -/
def dispatchParsed (site : Site) (fuel : Nat) (t : Turn) (result : Except ParseError HttpRequest)
    (now : Nat) : Option (HttpIo × Turn) :=
  match result with
  -- `HTTP_PARSE_BAD`
  | .error .bad => some ((t.armClose RESPONSE_400 400 now).onWrite now)
  | .error _ => some ((t.armClose RESPONSE_501 501 now).onWrite now)
  | .ok req =>
      let t := { t with hc := { t.hc with req := req } }
      -- a method that `parse_method` does not know
      if req.method = .unknown then some ((t.armClose RESPONSE_501 501 now).onWrite now)
      else
        match t.routeBegin site fuel now with
        | none => none
        | some (io, t) =>
            -- a response that is armed is written in the same call
            if io = .wantWrite ∧ t.hc.phase ≠ .read then some (t.onWrite now) else some (io, t)

/-- `try_parse_buffer`. -/
def tryParseBuffer (site : Site) (fuel : Nat) (t : Turn) (now : Nat) : Option (HttpIo × Turn) :=
  if t.hc.used = 0 then some (.wantRead, t)
  else
    match httpParseRequest t.hc.buf with
    | .error .incomplete =>
        if t.hc.headerCap ≤ t.hc.used then some (t.refuseHead now) else some (.wantRead, t)
    | result => t.settle.dispatchParsed site fuel result now

/-- The loop of `http_conn_on_read`; `none` when the fuel does not end it. -/
def readLoop (site : Site) (fuel now : Nat) : Nat → Turn → Option (HttpIo × Turn)
  | 0, _ => none
  | n + 1, t =>
      -- no room left for the head
      if t.hc.headerCap ≤ t.hc.used then some (t.refuseHead now)
      else
        let r := t.kernel.read .client (t.hc.headerCap - t.hc.used)
        let t := { t with kernel := r.2 }
        match r.1 with
        | .interrupted => readLoop site fuel now n t
        | .wouldBlock => some (.wantRead, t)
        | .error | .eof => some (.close, t)
        | .got bytes =>
            let t := { t with hc := { t.hc with buf := t.hc.buf ++ bytes, lastActiveMs := now } }
            match t.tryParseBuffer site fuel now with
            | none => none
            | some (io, t) =>
                -- anything but `HTTP_IO_WANT_READ` leaves the loop
                if io = .wantRead then readLoop site fuel now n t else some (io, t)

/-- `http_conn_on_read`. -/
def httpConnOnRead (site : Site) (fuel : Nat) (t : Turn) (now : Nat) : Option (HttpIo × Turn) :=
  if t.hc.phase ≠ .read then some (.wantWrite, t)
  else if t.hc.deadlineMs ≤ now then some (.close, t)
  else if 0 < t.hc.used then
    match t.tryParseBuffer site fuel now with
    | none => none
    | some (io, t) => if io = .wantRead then readLoop site fuel now fuel t else some (io, t)
  else readLoop site fuel now fuel t

/-- The newest upstream connection of the wire is in the idle pool. -/
def parked (t : Turn) : Bool :=
  t.pool.any fun e => decide (t.kernel.wire.conns.head?.map (·.fd) = some e.fd)

/-- The checks of `http_conn_reuse`. -/
def continues (hc : HttpConn) : Bool :=
  hc.keep && decide (hc.req.headerBytes ≤ hc.used) &&
    decide (hc.used - hc.req.headerBytes ≤ hc.headerCap)

/-- The connection is ready for its next request. What the buffer holds after the head
moves to its front. -/
def nextRequest (t : Turn) (now : Nat) : Turn :=
  let left := t.hc.buf.drop t.hc.req.headerBytes
  let t := t.withHandler t.toHandler.httpConnCleanup
  { t with
    arena := 0
    hc := resetRequestState { t.hc with buf := left } now t.hc.keepaliveMs }

/-- `http_conn_reuse`. -/
def httpConnReuse (site : Site) (fuel : Nat) (t : Turn) (now : Nat) : Option (HttpIo × Turn) :=
  let answer : Answer :=
    ⟨t.hc.req, t.kernel.wire.clientOut, t.hc.keep, continues t.hc, t.kernel.wire.conns, t.parked⟩
  let t := { t with trail := { t.trail with answers := t.trail.answers ++ [answer] } }
  if !continues t.hc then some (.close, t)
  else (t.nextRequest now).tryParseBuffer site fuel now

end Turn

end TinyServer.Serve
