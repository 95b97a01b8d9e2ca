import TinyServer.Http.Conn
import TinyServer.Proxy.Chunk

/-!
# The proxied slot (`proxy.h`, `proxy.c`)

`World` is everything `proxy_begin` and `proxy_pump` read and write: the client
connection, the `proxy_conn` of the slot, the worker's idle pool and the kernel.
`hdr` holds the `hdr_len` bytes of `px->hdr` and `buf` the `buf_len` bytes of
`px->buf`. The epoll descriptor is the worker's and always open.
-/

set_option autoImplicit false

namespace TinyServer.Proxy

open TinyServer.Http TinyServer.Net

/-- The size of `px->hdr`. -/
def PROXY_HDR_MAX : Nat := 8192

/-- The size of `px->buf`. -/
def PROXY_BUF_MAX : Nat := 8192

/-- `TINY_CONNS_PER_WORKER`. -/
def PROXY_POOL_MAX : Nat := 128

/-- The answer to a method that is not relayed. -/
def RESP_405 : List UInt8 :=
  cstr ("HTTP/1.1 405 Method Not Allowed\r\n" ++
    "Content-Length: 0\r\n" ++
    "Allow: GET, HEAD, POST\r\n" ++
    "Connection: close\r\n" ++
    "\r\n")

/-- The answer to a body without a length. -/
def RESP_411 : List UInt8 :=
  cstr ("HTTP/1.1 411 Length Required\r\n" ++
    "Content-Length: 0\r\n" ++
    "Connection: close\r\n" ++
    "\r\n")

/-- The answer to an exchange that failed. -/
def RESP_502 : List UInt8 :=
  cstr ("HTTP/1.1 502 Bad Gateway\r\n" ++
    "Content-Length: 0\r\n" ++
    "Connection: close\r\n" ++
    "\r\n")

/-- The interim answer to `Expect: 100-continue`. -/
def CONT_100 : List UInt8 := cstr "HTTP/1.1 100 Continue\r\n\r\n"

/-- The end of a rewritten head after which the client is closed. -/
def CONNECTION_CLOSE : List UInt8 := cstr "Connection: close\r\n\r\n"

/-- The end of a rewritten head after which the client is kept. -/
def CONNECTION_KEEP : List UInt8 := cstr "Connection: keep-alive\r\n\r\n"

/-- The phases of `proxy_pump`; `none` is the 0 that `proxy_conn_reset` stores. -/
inductive PxPhase where
  | none
  | sendReq
  | sendBody
  | recvHdr
  | sendResp
  | stream
  deriving DecidableEq, Repr

/-- The `PX_*` bits of `proxy_conn.flags`. -/
structure PxFlags where
  send100 : Bool
  cork : Bool
  respCl : Bool
  respChunked : Bool
  respEof : Bool
  bodyDone : Bool
  respSent : Bool
  upClose : Bool
  clientKeep : Bool
  reused : Bool
  overread : Bool
  deriving DecidableEq, Repr

/-- No flag is set. -/
def PxFlags.zero : PxFlags :=
  ⟨false, false, false, false, false, false, false, false, false, false, false⟩

/-- `armed` is meaningful only while `inEpoll` is set. -/
structure ProxyConn where
  fd : Option Nat
  phase : PxPhase
  armed : HttpIo
  inEpoll : Bool
  chunk : ChunkScan
  contOff : Nat
  flags : PxFlags
  status : Nat
  upLen : Nat
  upAddr : List UInt8
  hdrOff : Nat
  hdr : List UInt8
  bufOff : Nat
  buf : List UInt8
  bodyOff : Nat
  bodyEnd : Nat
  bodyLeft : Nat
  respLeft : Nat
  deriving DecidableEq, Repr

/-- A slot's proxy state in the zeroed memory of a new worker, with the descriptor
`-1`. -/
def ProxyConn.zero : ProxyConn where
  fd := .none
  phase := .none
  armed := .done
  inEpoll := false
  chunk := .start
  contOff := 0
  flags := .zero
  status := 0
  upLen := 0
  upAddr := []
  hdrOff := 0
  hdr := []
  bufOff := 0
  buf := []
  bodyOff := 0
  bodyEnd := 0
  bodyLeft := 0
  respLeft := 0

/-- `proxy_conn_reset`. It leaves `up_addr` as it is. -/
def proxyConnReset (px : ProxyConn) : ProxyConn := { ProxyConn.zero with upAddr := px.upAddr }

/-- `proxy_idle`: an upstream socket that waits for the next exchange. -/
structure ProxyIdle where
  fd : Nat
  len : Nat
  addr : List UInt8
  deriving DecidableEq, Repr

/-- `wrapped` is set when one of the unsigned subtractions whose operands come
from different places (`need - have`, `body_left - buf_len`, `buf_len - total`,
`buf_len - n`) wraps. No code reads it. -/
structure World where
  hc : HttpConn
  px : ProxyConn
  pool : List ProxyIdle
  kernel : Kernel
  wrapped : Bool
  deriving DecidableEq, Repr

/-- The difference of two `uint32_t`. -/
def sub32 (a b : Nat) : Nat := if b ≤ a then a - b else 2 ^ 32 - (b - a)

theorem sub32_eq {a b : Nat} (h : b ≤ a) : sub32 a b = a - b := if_pos h

/-! ## The idle pool -/

/-- `addr_eq`. -/
def addrEq (a : List UInt8) (alen : Nat) (b : List UInt8) (blen : Nat) : Bool :=
  alen == blen && 0 < alen && a.take alen == b.take alen

/-- `proxy_pool_take`: the last entry that matches, whose place the last entry of
the pool takes. -/
def proxyPoolTake (pool : List ProxyIdle) (addr : List UInt8) (len : Nat) :
    Option Nat × List ProxyIdle :=
  let matching := (List.range pool.length).filter fun i =>
    match pool[i]? with
    | some e => addrEq e.addr e.len addr len
    | none => false
  -- the loop runs from the end, so the last match is taken
  match matching.getLast? with
  | none => (none, pool)
  | some i =>
      -- swap with the last entry, and shorten
      match pool[i]?, pool.getLast? with
      | some e, some last => (some e.fd, (pool.set i last).dropLast)
      | _, _ => (none, pool)

/-- `proxy_pool_put`; `none` where the caller still owns the descriptor. -/
def proxyPoolPut (pool : List ProxyIdle) (fd : Nat) (addr : List UInt8) (len : Nat) :
    Option (List ProxyIdle) :=
  if len = 0 ∨ PROXY_POOL_MAX ≤ pool.length then none else some (pool ++ [⟨fd, len, addr⟩])

namespace World

/-! ## Small steps on a slot -/

/-- `touch`: the deadline starts again. -/
def touch (w : World) (now : Nat) : World :=
  { w with hc := { w.hc with lastActiveMs := now, deadlineMs := now + w.hc.sendTimeoutMs } }

/-- `arm_fixed`. -/
def armFixed (w : World) (resp : List UInt8) (status now : Nat) : World :=
  { w with hc := Http.armFixed w.hc resp status now }

/-- The start of `proxy_close`, `proxy_release` and `proxy_reopen`: leave epoll
and lift the cork. The results of both calls are ignored. -/
def detach (w : World) (fd : Nat) : World :=
  let w := if w.px.inEpoll then { w with kernel := (w.kernel.epollCtl fd .del).2 } else w
  if w.px.flags.cork then { w with kernel := (w.kernel.cork fd false).2 } else w

/-- `proxy_close`. -/
def proxyClose (w : World) : World :=
  match w.px.fd with
  | none => w
  | some fd =>
      let w := w.detach fd
      { w with kernel := w.kernel.close fd, px := proxyConnReset w.px }

/-- `proxy_fail`: a 502, or a close where part of the response is out. -/
def proxyFail (w : World) (now : Nat) : HttpIo × World :=
  let sent := w.px.flags.respSent
  let w := w.proxyClose
  if sent then (.close, w) else (.wantWrite, w.armFixed RESP_502 502 now)

/-- `cork_client`. -/
def corkClient (w : World) (on : Bool) : World :=
  match w.hc.fd with
  | none => w
  | some fd =>
      if w.hc.corkOn = on then w
      else
        let r := w.kernel.cork fd on
        if r.1 then { w with kernel := r.2, hc := { w.hc with corkOn := on } }
        else { w with kernel := r.2 }

/-- `cork_up`. -/
def corkUp (w : World) (on : Bool) : World :=
  match w.px.fd with
  | none => w
  | some fd =>
      if !on && !w.px.flags.cork then w
      else
        let r := w.kernel.cork fd on
        if r.1 then
          { w with kernel := r.2, px := { w.px with flags := { w.px.flags with cork := on } } }
        else { w with kernel := r.2 }

/-- Register the upstream socket for `io`; `false` where the call fails. -/
def armUp (w : World) (io : HttpIo) : Bool × World :=
  match w.px.fd with
  | none => (false, w)
  | some fd =>
      if w.px.inEpoll ∧ w.px.armed = io then (true, w)
      else
        let interest : Interest := ⟨io = .wantRead, io = .wantWrite⟩
        let r := w.kernel.epollCtl fd (if w.px.inEpoll then .mod interest else .add interest)
        if r.1 then
          (true, { w with kernel := r.2, px := { w.px with inEpoll := true, armed := io } })
        else (false, { w with kernel := r.2 })

/-- `yield_up`; `none` where it returns -1. -/
def yieldUp (w : World) (upIo clientIo : HttpIo) : Option HttpIo × World :=
  let r := w.armUp upIo
  if !r.1 then (none, r.2)
  else if r.2.px.flags.send100 then (some .wantWrite, r.2)
  else (some clientIo, r.2)

/-- Park the socket in the idle pool. -/
def proxyRelease (w : World) (fd : Nat) : World :=
  let addr := w.px.upAddr
  let len := w.px.upLen
  let w := w.detach fd
  let w := { w with px := proxyConnReset w.px }
  match proxyPoolPut w.pool fd addr len with
  | some pool => { w with pool := pool }
  | none => { w with kernel := w.kernel.close fd }

/-- `proxy_can_pool`. -/
def proxyCanPool (w : World) : Bool :=
  w.px.fd.isSome && w.px.upLen != 0 &&
    !(w.px.flags.upClose || w.px.flags.overread || w.px.flags.respEof) && w.px.flags.bodyDone

/-- `proxy_done`. -/
def proxyDone (w : World) : HttpIo × World :=
  let code := if w.px.status ≠ 0 then w.px.status else 200
  let keep := w.px.flags.clientKeep
  let w := w.corkClient false
  let w := match w.px.fd with
    | some fd => if w.proxyCanPool then w.proxyRelease fd else w.proxyClose
    | none => w.proxyClose
  (.done, { w with hc := { w.hc with keep := keep, statusCode := code } })

/-- The state in which `proxy_reopen` asks for a new socket. -/
def dropUpstream (w : World) : World :=
  -- `close(px->fd)`, out of the epoll set first
  let w := match w.px.fd with
    | none => w
    | some fd =>
        let w := w.detach fd
        { w with kernel := w.kernel.close fd }
  { w with px := { w.px with
    fd := none
    inEpoll := false
    armed := .done
    flags := { w.px.flags with cork := false, reused := false }
    hdrOff := 0 } }

/-- A request body is waiting, in the header buffer or on the client socket. -/
def hasBody (w : World) : Bool := w.px.bodyOff < w.px.bodyEnd || 0 < w.px.bodyLeft

/-- Replace the upstream socket by a new connection; `false` where it fails. -/
def proxyReopen (w : World) : Bool × World :=
  let w := w.dropUpstream
  let r := w.kernel.socket w.px.upAddr
  match r.1 with
  | none => (false, { w with kernel := r.2 })
  | some fd =>
      let w := { w with kernel := r.2.openConn fd false, px := { w.px with fd := some fd } }
      let w := if w.hasBody then w.corkUp true else w
      let c := w.kernel.connect fd w.px.upAddr
      (c.1 ≠ .error, { w with kernel := c.2 })

/-- The guards of `proxy_retry_idle`. -/
def canRetryIdle (w : World) : Bool :=
  w.px.flags.reused && !w.px.flags.respSent && w.px.buf.length == 0 &&
    (w.hc.req.method == .get || w.hc.req.method == .head)

/-- `proxy_retry_idle`; the result says whether the request will be resent. -/
def proxyRetryIdle (w : World) : Bool × World :=
  if !w.canRetryIdle then (false, w)
  else
    let r := w.proxyReopen
    if !r.1 then (false, r.2)
    else (true, { r.2 with px := { r.2.px with bufOff := 0, buf := [], phase := .sendReq } })

end World

end TinyServer.Proxy
