import TinyServer.Http.Parser
import TinyServer.Net.Sockets

/-!
# The client connection (`http.h`, `http.c`)

`HttpConn` is `http_conn` without the arena and the fields only logging and
statistics read. `buf` holds the `used` bytes at `hc->buf`, `fixed` and `outHdr`
the bytes the C pointers and lengths describe.
-/

set_option autoImplicit false

namespace TinyServer.Http

open TinyServer.Net

/-- The `HTTP_IO_*` results. -/
inductive HttpIo where
  | done
  | wantRead
  | wantWrite
  | close
  | idle
  deriving DecidableEq, Repr

/-- The results that wait for a socket. -/
def HttpIo.yields : HttpIo → Bool
  | .wantRead | .wantWrite | .idle => true
  | .done | .close => false

/-- `HTTP_PHASE_*`: what the connection does next. -/
inductive HttpPhase where
  | read
  | writeFixed
  | writeHdr
  | sendfile
  deriving DecidableEq, Repr

/-- `http_conn`. -/
structure HttpConn where
  fd : Option Nat
  buf : List UInt8
  headerCap : Nat
  readTimeoutMs : Nat
  sendTimeoutMs : Nat
  keepaliveMs : Nat
  req : HttpRequest
  phase : HttpPhase
  sendBody : Bool
  corkOn : Bool
  keep : Bool
  fileOwned : Bool
  statusCode : Nat
  deadlineMs : Nat
  lastActiveMs : Nat
  fixed : List UInt8
  fixedOff : Nat
  outHdr : List UInt8
  outHdrOff : Nat
  fileFd : Option Nat
  fileSize : Nat
  fileOff : Nat
  deriving DecidableEq, Repr

/-- `hc->used`. -/
def HttpConn.used (hc : HttpConn) : Nat := hc.buf.length

/-- `http_should_keepalive`. -/
def httpShouldKeepalive (req : HttpRequest) : Bool :=
  if req.method ≠ .get ∧ req.method ≠ .head then false
  else if req.flags.connectionClose then false
  else if req.flags.transferEncoding then false
  -- A request body is not drained yet.
  else if req.flags.contentLength ∧ 0 < req.contentLength then false
  else if 1 ≤ req.minorVersion then true
  else req.flags.connectionKeepAlive

/-- `arm_fixed` of `proxy.c`, `arm_fixed_close` of `http.c` and `arm_close` of
`routes.c`: answer with the fixed text `resp` and do not keep the client. -/
def armFixed (hc : HttpConn) (resp : List UInt8) (status now : Nat) : HttpConn :=
  { hc with
    fixed := resp
    fixedOff := 0
    phase := .writeFixed
    deadlineMs := now + hc.sendTimeoutMs
    keep := false
    statusCode := status }

/-- `write_fixed`. -/
def writeFixed (hc : HttpConn) (k : Kernel) : HttpIo × HttpConn × Kernel :=
  let r := k.send .client (hc.fixed.drop hc.fixedOff)
  let io := match r.2.1 with
    | .done => .done
    | .wouldBlock => .wantWrite
    | .dead => .close
  (io, { hc with fixedOff := hc.fixedOff + r.1 }, r.2.2)

/-- `http_conn_on_write` in the phase `HTTP_PHASE_WRITE_FIXED`. -/
def fixedOnWrite (hc : HttpConn) (k : Kernel) (now : Nat) : HttpIo × HttpConn × Kernel :=
  if hc.deadlineMs ≤ now then (.close, hc, k)
  else writeFixed { hc with lastActiveMs := now } k

end TinyServer.Http
