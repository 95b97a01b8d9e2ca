import TinyServer.Proxy.Rewrite

/-!
# The proxy machine (`proxy_begin`, `proxy_pump`)

One turn of the loop of `proxy_pump` is `pumpTurn`: it flushes a pending
100 Continue, checks the budget and runs the case of the current phase. A turn
ends in an `Exit`, one for each way the C code leaves the switch: `break`, the
`yield_up` that falls back on `proxy_fail`, `proxy_fail`, `proxy_close` with
`HTTP_IO_CLOSE`, `proxy_done`, and a plain return.
-/

set_option autoImplicit false

namespace TinyServer.Proxy

open TinyServer.Http TinyServer.Net

/-- How a turn of the loop ends. -/
inductive Exit where
  | again (budget : Nat)
  | yield (upIo clientIo : HttpIo)
  | fail
  | close
  | done
  | ret (io : HttpIo)
  deriving DecidableEq, Repr

/-! ## Framing -/

/-- `note_body` for the last `n` bytes of `px->buf`; `none` for -1. -/
def noteBody (px : ProxyConn) (n : Nat) : Option ProxyConn :=
  -- nothing was read, or `PX_BODY_DONE`
  if n = 0 ∨ px.flags.bodyDone then some px
  else if px.flags.respChunked then
    let base := sub32 px.buf.length n
    let r := chunkFeed px.chunk (px.buf.drop base)
    -- `chunk_feed` returned -1
    if r.2.1 = .bad then none
    else
      some { px with
        chunk := r.2.2
        buf := if r.1 < n then px.buf.take (base + r.1) else px.buf
        flags := { px.flags with
          overread := px.flags.overread || decide (r.1 < n)
          bodyDone := r.2.1 == .done } }
  else if px.flags.respCl then
    -- bytes past the declared length are dropped, and the socket is not reused
    let excess := n - px.respLeft
    let left := px.respLeft - min n px.respLeft
    some { px with
      buf := px.buf.take (px.buf.length - excess)
      respLeft := left
      flags := { px.flags with
        overread := px.flags.overread || decide (0 < excess)
        bodyDone := left == 0 } }
  -- Until the connection closes, all of it is body.
  else some px

namespace World

/-- `note_body`, and whether its subtraction wrapped. -/
def noteBody (w : World) (n : Nat) : Option World :=
  (Proxy.noteBody w.px n).map fun px =>
    { w with px := px, wrapped := w.wrapped || decide (w.px.buf.length < n) }

/-! ## The phases -/

/-- `flush_100`: `wouldBlock` for 1, `done` for 0, `dead` for -1. -/
def flush100 (w : World) : SendOutcome × World :=
  if !w.px.flags.send100 then (.done, w)
  else
    let r := w.kernel.send .client (CONT_100.drop w.px.contOff)
    let w := { w with kernel := r.2.2, px := { w.px with contOff := w.px.contOff + r.1 } }
    match r.2.1 with
    | .done => (.done, { w with px := { w.px with flags := { w.px.flags with send100 := false } } })
    | o => (o, w)

/-- The exits of the branch for a spent budget. -/
def budgetExit (w : World) : Exit :=
  let px := w.px
  if px.phase = .sendReq ∨
      (px.phase = .sendBody ∧ (px.bufOff < px.buf.length ∨ px.bodyOff < px.bodyEnd)) then
    .yield .wantWrite .idle
  else if px.phase = .sendBody ∧ 0 < px.bodyLeft then .yield .idle .wantRead
  else if px.phase = .recvHdr ∨
      (px.phase = .stream ∧ px.buf.length ≤ px.bufOff ∧ !px.flags.bodyDone) then
    .yield .wantRead .idle
  else if px.phase = .sendResp ∨ px.phase = .stream then .yield .idle .wantWrite
  else .fail

/-- `touch` and one unit of budget for a call that moved bytes. -/
def moved (w : World) (now n : Nat) : World := if n = 0 then w else w.touch now

/-- A call that moved bytes takes one unit of the budget. -/
def spend (b n : Nat) : Nat := if n = 0 then b else b - 1

/-- The end of the `PX_SEND_REQ` case, once the head is out. -/
def sendReqNext (b : Nat) (w : World) : World × Exit :=
  if w.hasBody then ({ w with px := { w.px with phase := .sendBody } }, .again b)
  else
    let w := w.corkUp false
    ({ w with px := { w.px with bufOff := 0, buf := [], phase := .recvHdr } }, .again b)

/-- The case `PX_SEND_REQ`. -/
def sendReqTurn (now b : Nat) (w : World) : World × Exit :=
  if w.px.hdrOff < w.px.hdr.length then
    let r := w.kernel.send .upstream (w.px.hdr.drop w.px.hdrOff)
    let w := { w with kernel := r.2.2, px := { w.px with hdrOff := w.px.hdrOff + r.1 } }
    match r.2.1 with
    -- A pooled socket that went stale before a byte was taken: connect anew, once.
    | .dead =>
        if w.px.flags.reused ∧ w.px.hdrOff = 0 then
          let q := w.proxyReopen
          if q.1 then (q.2, .again b) else (q.2, .fail)
        else (w, .fail)
    | .wouldBlock => (w.moved now r.1, .yield .wantWrite .idle)
    | .done => sendReqNext (spend b r.1) (w.moved now r.1)
  else sendReqNext b w

/-- The case `PX_SEND_BODY`. -/
def sendBodyTurn (now b : Nat) (w : World) : World × Exit :=
  -- what an earlier read left in the buffer
  if w.px.bufOff < w.px.buf.length then
    let r := w.kernel.send .upstream (w.px.buf.drop w.px.bufOff)
    let w := { w with kernel := r.2.2, px := { w.px with bufOff := w.px.bufOff + r.1 } }
    match r.2.1 with
    | .dead => (w, .fail)
    | .wouldBlock => (w.moved now r.1, .yield .wantWrite .idle)
    | .done =>
        let w := w.moved now r.1
        ({ w with px := { w.px with bufOff := 0, buf := [] } }, .again (spend b r.1))
  -- what came with the head, in the client's own buffer
  else if w.px.bodyOff < w.px.bodyEnd then
    let r := w.kernel.send .upstream ((w.hc.buf.take w.px.bodyEnd).drop w.px.bodyOff)
    let w := { w with kernel := r.2.2, px := { w.px with bodyOff := w.px.bodyOff + r.1 } }
    match r.2.1 with
    | .dead => (w, .fail)
    | .wouldBlock => (w.moved now r.1, .yield .wantWrite .idle)
    | .done => (w.moved now r.1, .again (spend b r.1))
  -- what is still to be read from the client
  else if 0 < w.px.bodyLeft then
    let r := w.kernel.readThrough .client (min PROXY_BUF_MAX w.px.bodyLeft)
    let w := { w with kernel := r.2, px := { w.px with bufOff := 0, buf := [] } }
    match r.1 with
    | .got bytes =>
        let w := { w with
          wrapped := w.wrapped || decide (w.px.bodyLeft < bytes.length)
          px := { w.px with buf := bytes, bodyLeft := sub32 w.px.bodyLeft bytes.length } }
        (w.touch now, .again (b - 1))
    | .wouldBlock => (w, .yield .idle .wantRead)
    -- the client closed its side, or failed
    | _ => (w, .close)
  else
    let w := w.corkUp false
    ({ w with px := { w.px with bufOff := 0, buf := [], phase := .recvHdr } }, .again b)

/-- The upstream failed or closed before a byte of a head arrived, or in its
middle. -/
def retryOrFail (b : Nat) (w : World) : World × Exit :=
  if w.px.buf.length = 0 then
    let q := w.proxyRetryIdle
    if q.1 then (q.2, .again b) else (q.2, .fail)
  else (w, .fail)

/-- The end of the `PX_RECV_HDR` case, for a head that ends at `at' + 4`. -/
def headTurn (b at' : Nat) (w : World) : World × Exit :=
  let total := at' + 4
  let rest := w.px.buf.drop total
  let left := sub32 w.px.buf.length total
  match rewriteResponse w.hc.req w.px (w.px.buf.take total) with
  | .bad => (w, .fail)
  -- 1xx: dropped, and the next head is read
  | .skip =>
      ({ w with
        wrapped := w.wrapped || decide (w.px.buf.length < total)
        px := { w.px with buf := rest, bufOff := 0 } }, .again b)
  | .final px =>
      let w := { w with
        wrapped := w.wrapped || decide (w.px.buf.length < total)
        px := { px with buf := rest, bufOff := 0 } }
      -- the response has no body, so what follows its head is not part of it
      if w.hc.req.method = .head ∨ w.px.flags.bodyDone then
        ({ w with px := { w.px with
          buf := []
          phase := .sendResp
          flags := { w.px.flags with
            overread := w.px.flags.overread || decide (0 < left)
            bodyDone := true } } }, .again b)
      else
        match w.noteBody left with
        | none => (w, .fail)
        | some w => ({ w with px := { w.px with phase := .sendResp } }, .again b)

/-- The case `PX_RECV_HDR`. -/
def recvHdrTurn (now b : Nat) (w : World) : World × Exit :=
  match findHdrEnd w.px.buf with
  | some at' => headTurn b at' w
  | none =>
      if PROXY_BUF_MAX ≤ w.px.buf.length then (w, .fail)
      else
        let r := w.kernel.read .upstream (PROXY_BUF_MAX - w.px.buf.length)
        let w := { w with kernel := r.2 }
        match r.1 with
        | .interrupted => (w, .again b)
        | .error => retryOrFail b w
        | .eof => retryOrFail b w
        | .wouldBlock => (w, .yield .wantRead .idle)
        | .got bytes =>
            let w := { w with px := { w.px with buf := w.px.buf ++ bytes } }.touch now
            match findHdrEnd w.px.buf with
            | some at' => headTurn (b - 1) at' w
            -- the buffer is full, and holds no complete head
            | none =>
                if PROXY_BUF_MAX ≤ w.px.buf.length then (w, .fail) else (w, .again (b - 1))

/-- The answer to a client that failed while the response was going out. -/
def clientDead (w : World) : World × Exit :=
  if w.px.flags.respSent then (w, .close) else (w, .fail)

/-- The first byte of the response is out. -/
def markSent (w : World) (n : Nat) : World :=
  if n = 0 then w
  else { w with px := { w.px with flags := { w.px.flags with respSent := true } } }

/-- `PX_SEND_RESP` with the whole body buffered: one `send_gathered`. -/
def sendGatheredTurn (now b : Nat) (w : World) : World × Exit :=
  let head := w.px.hdr.drop w.px.hdrOff
  let data := head ++ w.px.buf.drop w.px.bufOff
  -- nothing is left to send
  if data = [] then (w, .done)
  else
    let r := w.kernel.sendmsg .client data
    let w := { w with kernel := r.2.2 }
    match r.2.1 with
    | .dead => w.clientDead
    | .wouldBlock => (w, .ret .wantWrite)
    | .done =>
        -- `sendmsg` takes the head first, then the body
        let w := { w with px := { w.px with
          hdrOff := w.px.hdrOff + min r.1 head.length
          bufOff := w.px.bufOff + (r.1 - head.length) } }
        let w := (w.markSent r.1).moved now r.1
        if w.px.hdrOff < w.px.hdr.length ∨ w.px.bufOff < w.px.buf.length then
          (w, .again (spend b r.1))
        else (w, .done)

/-- The end of the `PX_SEND_RESP` case, once the head is out. -/
def sendRespNext (b : Nat) (w : World) : World × Exit :=
  if w.px.flags.bodyDone ∧ w.px.buf.length ≤ w.px.bufOff then (w, .done)
  else ({ w with px := { w.px with phase := .stream } }, .again b)

/-- The case `PX_SEND_RESP`. -/
def sendRespTurn (now b : Nat) (w : World) : World × Exit :=
  -- the whole response is in the buffers: both go out in one call
  if w.px.flags.bodyDone then sendGatheredTurn now b w
  else
    -- the body streams on: the head goes first, corked
    let w := w.corkClient true
    if w.px.hdrOff < w.px.hdr.length then
      let r := w.kernel.send .client (w.px.hdr.drop w.px.hdrOff)
      let w := { w with kernel := r.2.2, px := { w.px with hdrOff := w.px.hdrOff + r.1 } }
      let w := w.markSent r.1
      match r.2.1 with
      | .dead => w.clientDead
      | .wouldBlock => (w.moved now r.1, .yield .idle .wantWrite)
      | .done => sendRespNext (spend b r.1) (w.moved now r.1)
    else sendRespNext b w

/-- The case `PX_STREAM`. -/
def streamTurn (now b : Nat) (w : World) : World × Exit :=
  if w.px.bufOff < w.px.buf.length then
    let r := w.kernel.send .client (w.px.buf.drop w.px.bufOff)
    let w := { w with kernel := r.2.2, px := { w.px with bufOff := w.px.bufOff + r.1 } }
    match r.2.1 with
    | .dead => (w, .close)
    | .wouldBlock => ((w.markSent r.1).moved now r.1, .yield .idle .wantWrite)
    -- the buffer is empty again
    | .done =>
        let w := (w.markSent r.1).moved now r.1
        let w := { w with px := { w.px with bufOff := 0, buf := [] } }
        if w.px.flags.bodyDone then (w, .done) else (w, .again (spend b r.1))
  -- `PX_STREAM` with all of the body sent
  else if w.px.flags.bodyDone then (w, .done)
  else
    let cap := if w.px.flags.respCl ∧ w.px.respLeft < PROXY_BUF_MAX then w.px.respLeft
      else PROXY_BUF_MAX
    -- the declared length has come
    if cap = 0 then
      ({ w with px := { w.px with flags := { w.px.flags with bodyDone := true } } }, .done)
    else
      let r := w.kernel.read .upstream cap
      let w := { w with kernel := r.2, px := { w.px with bufOff := 0, buf := [] } }
      match r.1 with
      | .interrupted => (w, .again b)
      | .error => (w, .close)
      -- a body until the close ends here; any other was cut short
      | .eof => if w.px.flags.respEof then (w, .done) else (w, .close)
      | .wouldBlock => (w, .yield .wantRead .idle)
      | .got bytes =>
          match { w with px := { w.px with buf := bytes } }.noteBody bytes.length with
          | none => (w, .close)
          | some w => (w.touch now, .again (b - 1))

/-- The `switch` over the phases. -/
def phaseTurn (now b : Nat) (w : World) : World × Exit :=
  match w.px.phase with
  | .sendReq => sendReqTurn now b w
  | .sendBody => sendBodyTurn now b w
  | .recvHdr => recvHdrTurn now b w
  | .sendResp => sendRespTurn now b w
  | .stream => streamTurn now b w
  | .none => (w, .fail)

/-- One turn of the loop of `proxy_pump`. -/
def pumpTurn (now b : Nat) (w : World) : World × Exit :=
  let f := w.flush100
  match f.1 with
  | .dead => (f.2, .close)
  | .wouldBlock => (f.2, .ret .wantWrite)
  | .done => if b = 0 then (f.2, f.2.budgetExit) else phaseTurn now b f.2

/-- What leaving the loop does; `none` goes round again. -/
def leave (now : Nat) (w : World) : Exit → Option (HttpIo × World)
  | .again _ => none
  | .yield upIo clientIo =>
      let y := w.yieldUp upIo clientIo
      match y.1 with
      | none => some (y.2.proxyFail now)
      | some io => some (io, y.2)
  | .fail => some (w.proxyFail now)
  | .close => some (.close, w.proxyClose)
  | .done => some w.proxyDone
  | .ret io => some (io, w)

/-- The loop; `none` when `fuel` turns do not end it. -/
def pumpLoop (now : Nat) : Nat → Nat → World → Option (HttpIo × World)
  | 0, _, _ => none
  | fuel + 1, b, w =>
      match pumpTurn now b w with
      | (w, .again b) => pumpLoop now fuel b w
      | (w, e) => leave now w e

/-- `int budget = 16`. -/
def BUDGET : Nat := 16

/-- The checks before the loop of `proxy_pump`. -/
def pumpEntry (now : Nat) (w : World) : Option (HttpIo × World) :=
  if w.px.fd = none then some (.close, w)
  else if w.hc.deadlineMs ≤ now then some (.close, w.proxyClose)
  else none

/-- `proxy_pump`. -/
def proxyPump (fuel now : Nat) (w : World) : Option (HttpIo × World) :=
  match pumpEntry now w with
  | some r => some r
  | none => pumpLoop now fuel BUDGET w

/-! ## The start of an exchange -/

/-- `need` and `have` of `proxy_begin`: the declared length of the body and how
much of it is in the header buffer. -/
def bodyNeed (hc : HttpConn) : Nat :=
  if hc.req.flags.contentLength then hc.req.contentLength else 0

/-- How much of the body is in the header buffer. -/
def bodyHave (hc : HttpConn) : Nat :=
  if hc.req.flags.contentLength ∧ hc.req.headerBytes < hc.used then
    min (hc.used - hc.req.headerBytes) (bodyNeed hc)
  else 0

/-- The `proxy_conn` that `proxy_begin` fills in before it asks for a socket. -/
def beginConn (w : World) (addr : List UInt8) (len : Nat) (hdr : List UInt8) : ProxyConn :=
  { proxyConnReset w.px with
    upAddr := addr
    upLen := len
    flags := { PxFlags.zero with send100 := expectsContinue w.hc }
    bodyOff := w.hc.req.headerBytes
    bodyEnd := w.hc.req.headerBytes + bodyHave w.hc
    bodyLeft := sub32 (bodyNeed w.hc) (bodyHave w.hc)
    hdrOff := 0
    hdr := hdr }

/-- The socket is there: `PX_SEND_REQ` starts, on a socket from the idle pool or
on a new one that still has to connect. -/
def beginOn (w : World) (fd : Nat) (reused : Bool) (now : Nat) : Except (HttpIo × World) World :=
  let w := { w with
    kernel := w.kernel.openConn fd reused
    px := { w.px with
      fd := some fd
      phase := .sendReq
      flags := { w.px.flags with reused := reused } } }
  -- TCP_CORK while the body is to follow the head
  let w := if w.hasBody then w.corkUp true else w
  -- a pooled socket is connected already
  let c := if reused then (ConnectResult.connected, w.kernel)
    else w.kernel.connect fd w.px.upAddr
  let w := { w with kernel := c.2 }
  if c.1 = .error then .error (w.proxyFail now)
  else .ok { w with hc := { w.hc with keep := false, deadlineMs := now + w.hc.sendTimeoutMs } }

/-- `proxy_begin` up to its call of `proxy_pump`, for the upstream address `addr`:
either the result it returns at once or the state it pumps. -/
def proxySetup (w : World) (addr : List UInt8) (len now : Nat) :
    Except (HttpIo × World) World :=
  let req := w.hc.req
  -- not a method that is forwarded
  if req.method ≠ .get ∧ req.method ≠ .head ∧ req.method ≠ .post then
    .error (.wantWrite, w.armFixed RESP_405 405 now)
  -- a POST without a length
  else if req.method = .post ∧ !req.flags.contentLength then
    .error (.wantWrite, w.armFixed RESP_411 411 now)
  else
    let wrapped := w.wrapped || decide (bodyNeed w.hc < bodyHave w.hc)
    match rewriteRequest (w.hc.buf.take req.headerBytes) with
    -- the head cannot be rewritten, or is too long with the fields that are added
    | none =>
        let w := { w with wrapped := wrapped, px := beginConn w addr len [] }
        .error (.wantWrite, w.armFixed RESP_502 502 now)
    | some hdr =>
        let w := { w with wrapped := wrapped, px := beginConn w addr len hdr }
        match proxyPoolTake w.pool addr len with
        | (some fd, pool) => beginOn { w with pool := pool } fd true now
        | (none, _) =>
            let s := w.kernel.socket addr
            match s.1 with
            -- `socket` failed
            | none => .error (.wantWrite, { w with kernel := s.2 }.armFixed RESP_502 502 now)
            | some fd => beginOn { w with kernel := s.2 } fd false now

/-- `proxy_begin`. -/
def proxyBegin (fuel : Nat) (w : World) (addr : List UInt8) (len now : Nat) :
    Option (HttpIo × World) :=
  match proxySetup w addr len now with
  | .error r => some r
  | .ok w => proxyPump fuel now w

end World

end TinyServer.Proxy
