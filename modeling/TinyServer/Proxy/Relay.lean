import Mathlib.Logic.Relation
import TinyServer.Proxy.Pump

/-!
# What an exchange moves

`Relay` is the part of a slot an exchange is about: the request, the two buffers
with their offsets, the framing, and the bytes on the wire. `Move` lists the
elementary moves between relay states: bytes go out or come in, a phase follows
another, a connection replaces another. It says nothing of timers, budget, epoll,
corking or descriptors.
-/

set_option autoImplicit false

namespace TinyServer.Proxy

open TinyServer.Http TinyServer.Net

/-- A `proxy_conn` without its descriptor, its address, and its epoll and cork
state. -/
def ProxyConn.core (px : ProxyConn) : ProxyConn :=
  { px with
    fd := none
    armed := .done
    inEpoll := false
    upLen := 0
    upAddr := []
    flags := { px.flags with cork := false } }

/-- `clientPhase` is the phase of the client connection, `input` what its header
buffer holds; `up` says that there is an upstream socket. -/
@[ext] structure Relay where
  up : Bool
  clientPhase : HttpPhase
  req : HttpRequest
  input : List UInt8
  px : ProxyConn
  clientIn : List UInt8
  clientOut : List UInt8
  conns : List UpstreamConn
  wrapped : Bool

/-- What the moves see of a slot. -/
def World.relay (w : World) : Relay where
  up := w.px.fd.isSome
  clientPhase := w.hc.phase
  req := w.hc.req
  input := w.hc.buf
  px := w.px.core
  clientIn := w.kernel.wire.clientIn
  clientOut := w.kernel.wire.clientOut
  conns := w.kernel.wire.conns
  wrapped := w.wrapped

namespace Relay

/-- Bytes go out on the current upstream connection. -/
def sendUp (d : Relay) (bytes : List UInt8) : Relay :=
  { d with conns := onNewest d.conns fun c => { c with sent := c.sent ++ bytes } }

/-- The client takes some bytes. -/
def sendClient (d : Relay) (bytes : List UInt8) : Relay :=
  { d with clientOut := d.clientOut ++ bytes }

/-- Bytes come in on the current upstream connection. -/
def recvUp (d : Relay) (bytes : List UInt8) : Relay :=
  { d with conns := onNewest d.conns fun c => { c with received := c.received ++ bytes } }

/-- The declared length of the request body. -/
def need (d : Relay) : Nat := if d.req.flags.contentLength then d.req.contentLength else 0

/-- Part of the request body is still to be sent. -/
def HasBody (d : Relay) : Prop := d.px.bodyOff < d.px.bodyEnd ∨ 0 < d.px.bodyLeft

/-- The phase is the one after a request that is out. -/
def toRecvHdr (d : Relay) : Relay :=
  { d with px := { d.px with bufOff := 0, buf := [], phase := .recvHdr } }

/-- The relay after the head `src` was taken from the shuttle buffer and gave
`px`. A request for no body ends the body there. -/
def takeHead (d : Relay) (px : ProxyConn) (rest : List UInt8) : Option Relay :=
  let px := { px with buf := rest, bufOff := 0 }
  if d.req.method = .head ∨ px.flags.bodyDone then
    some { d with px := { px with
      buf := []
      phase := .sendResp
      flags := { px.flags with
        overread := px.flags.overread || decide (0 < rest.length)
        bodyDone := true } } }
  else (noteBody px rest.length).map fun px => { d with px := { px with phase := .sendResp } }

end Relay

/-- Elementary moves. `resend` says whether a request with a body may be sent again
without it. -/
inductive Move (resend : Prop) : Relay → Relay → Prop
  | sendContinue (d : Relay) (n : Nat) (h100 : d.px.flags.send100 = true) :
      Move resend d ({ d with px := { d.px with contOff := d.px.contOff + n } }.sendClient
        ((CONT_100.drop d.px.contOff).take n))
  | endContinue (d : Relay) (h100 : d.px.flags.send100 = true)
      (hall : CONT_100.length ≤ d.px.contOff) :
      Move resend d { d with px := { d.px with flags := { d.px.flags with send100 := false } } }
  | sendHead (d : Relay) (n : Nat) (hphase : d.px.phase = .sendReq)
      (hn : n ≤ d.px.hdr.length - d.px.hdrOff) :
      Move resend d ({ d with px := { d.px with hdrOff := d.px.hdrOff + n } }.sendUp
        ((d.px.hdr.drop d.px.hdrOff).take n))
  | reopen (d : Relay) (fd : Nat) (hphase : d.px.phase = .sendReq)
      (hreused : d.px.flags.reused = true) (hoff : d.px.hdrOff = 0) :
      Move resend d { d with
        up := true
        px := { d.px with flags := { d.px.flags with reused := false } }
        conns := ⟨fd, false, [], [], false⟩ :: d.conns }
  | toSendBody (d : Relay) (hphase : d.px.phase = .sendReq)
      (hout : d.px.hdr.length ≤ d.px.hdrOff) (hbody : d.HasBody) :
      Move resend d { d with px := { d.px with phase := .sendBody } }
  | headSent (d : Relay) (hphase : d.px.phase = .sendReq)
      (hout : d.px.hdr.length ≤ d.px.hdrOff) (hbody : ¬ d.HasBody) : Move resend d d.toRecvHdr
  | bodySent (d : Relay) (hphase : d.px.phase = .sendBody)
      (hout : d.px.buf.length ≤ d.px.bufOff) (hbody : ¬ d.HasBody) : Move resend d d.toRecvHdr
  | sendShuttle (d : Relay) (n : Nat) (hphase : d.px.phase = .sendBody)
      (hn : n ≤ d.px.buf.length - d.px.bufOff) :
      Move resend d ({ d with px := { d.px with bufOff := d.px.bufOff + n } }.sendUp
        ((d.px.buf.drop d.px.bufOff).take n))
  | drained (d : Relay) (hphase : d.px.phase = .sendBody ∨ d.px.phase = .stream)
      (hout : d.px.buf.length ≤ d.px.bufOff) :
      Move resend d { d with px := { d.px with bufOff := 0, buf := [] } }
  | sendBuffered (d : Relay) (n : Nat) (hphase : d.px.phase = .sendBody)
      (hout : d.px.buf.length ≤ d.px.bufOff) (hn : n ≤ d.px.bodyEnd - d.px.bodyOff) :
      Move resend d ({ d with px := { d.px with bodyOff := d.px.bodyOff + n } }.sendUp
        (((d.input.take d.px.bodyEnd).drop d.px.bodyOff).take n))
  | readBody (d : Relay) (bytes : List UInt8) (hphase : d.px.phase = .sendBody)
      (hout : d.px.buf.length ≤ d.px.bufOff) (hoff : d.px.bodyEnd ≤ d.px.bodyOff)
      (hlen : bytes.length ≤ min PROXY_BUF_MAX d.px.bodyLeft) :
      Move resend d { d with
        px := { d.px with
          bufOff := 0
          buf := bytes
          bodyLeft := d.px.bodyLeft - bytes.length }
        clientIn := d.clientIn ++ bytes }
  | readHead (d : Relay) (bytes : List UInt8) (hphase : d.px.phase = .recvHdr)
      (hlen : d.px.buf.length + bytes.length ≤ PROXY_BUF_MAX) :
      Move resend d ({ d with px := { d.px with buf := d.px.buf ++ bytes } }.recvUp bytes)
  | upstreamEof (d : Relay) (hphase : d.px.phase = .recvHdr ∨ d.px.phase = .stream) :
      Move resend d { d with conns := onNewest d.conns fun c => { c with eof := true } }
  | retryIdle (d : Relay) (fd : Nat) (hphase : d.px.phase = .recvHdr)
      (hreused : d.px.flags.reused = true) (hsent : d.px.flags.respSent = false)
      (hbuf : d.px.buf = []) (hmethod : d.req.method = .get ∨ d.req.method = .head)
      (hbody : d.need = 0 ∨ resend) :
      Move resend d { d with
        up := true
        px := { d.px with
          hdrOff := 0
          bufOff := 0
          phase := .sendReq
          flags := { d.px.flags with reused := false } }
        conns := ⟨fd, false, [], [], false⟩ :: d.conns }
  | skipHead (d : Relay) (i : Nat) (hphase : d.px.phase = .recvHdr)
      (hend : findHdrEnd d.px.buf = some i)
      (hskip : rewriteResponse d.req d.px (d.px.buf.take (i + 4)) = .skip) :
      Move resend d { d with px := { d.px with bufOff := 0, buf := d.px.buf.drop (i + 4) } }
  | finalHead (d d' : Relay) (i : Nat) (px : ProxyConn) (hphase : d.px.phase = .recvHdr)
      (hend : findHdrEnd d.px.buf = some i)
      (hfinal : rewriteResponse d.req d.px (d.px.buf.take (i + 4)) = .final px)
      (htake : d.takeHead px (d.px.buf.drop (i + 4)) = some d') : Move resend d d'
  | sendGathered (d : Relay) (n : Nat) (hphase : d.px.phase = .sendResp)
      (h100 : d.px.flags.send100 = false) (hdone : d.px.flags.bodyDone = true) (hpos : 0 < n)
      (hn : n ≤ (d.px.hdr.drop d.px.hdrOff ++ d.px.buf.drop d.px.bufOff).length) :
      Move resend d ({ d with px := { d.px with
        hdrOff := d.px.hdrOff + min n (d.px.hdr.drop d.px.hdrOff).length
        bufOff := d.px.bufOff + (n - (d.px.hdr.drop d.px.hdrOff).length)
        flags := { d.px.flags with respSent := true } } }.sendClient
          ((d.px.hdr.drop d.px.hdrOff ++ d.px.buf.drop d.px.bufOff).take n))
  | sendRespHead (d : Relay) (n : Nat) (hphase : d.px.phase = .sendResp)
      (h100 : d.px.flags.send100 = false) (hn : n ≤ d.px.hdr.length - d.px.hdrOff) :
      Move resend d ({ d with px := { d.px with
        hdrOff := d.px.hdrOff + n
        flags := { d.px.flags with respSent := d.px.flags.respSent || decide (n ≠ 0) } } }.sendClient
          ((d.px.hdr.drop d.px.hdrOff).take n))
  | toStream (d : Relay) (hphase : d.px.phase = .sendResp)
      (hout : d.px.hdr.length ≤ d.px.hdrOff) :
      Move resend d { d with px := { d.px with phase := .stream } }
  | sendStream (d : Relay) (n : Nat) (hphase : d.px.phase = .stream)
      (h100 : d.px.flags.send100 = false) (hn : n ≤ d.px.buf.length - d.px.bufOff) :
      Move resend d ({ d with px := { d.px with
        bufOff := d.px.bufOff + n
        flags := { d.px.flags with respSent := d.px.flags.respSent || decide (n ≠ 0) } } }.sendClient
          ((d.px.buf.drop d.px.bufOff).take n))
  | endOfLength (d : Relay) (hphase : d.px.phase = .stream)
      (hout : d.px.buf.length ≤ d.px.bufOff) (hcl : d.px.flags.respCl = true)
      (hleft : d.px.respLeft = 0) :
      Move resend d { d with px := { d.px with flags := { d.px.flags with bodyDone := true } } }
  | readStream (d : Relay) (bytes : List UInt8) (px : ProxyConn) (hphase : d.px.phase = .stream)
      (hout : d.px.buf.length ≤ d.px.bufOff) (hdone : d.px.flags.bodyDone = false)
      (hlen : bytes.length ≤ PROXY_BUF_MAX)
      (hnote : noteBody { d.px with bufOff := 0, buf := bytes } bytes.length = some px) :
      Move resend d ({ d with px := px }.recvUp bytes)

/-- Any number of moves. -/
abbrev Moves (resend : Prop) : Relay → Relay → Prop := Relation.ReflTransGen (Move resend)

/-! ## Bounds -/

/-- The offsets and lengths of a slot. -/
structure Bounds (d : Relay) : Prop where
  hdr_off : d.px.hdrOff ≤ d.px.hdr.length
  hdr_len : d.px.hdr.length ≤ PROXY_HDR_MAX
  buf_off : d.px.bufOff ≤ d.px.buf.length
  buf_len : d.px.buf.length ≤ PROXY_BUF_MAX
  body_off : d.px.bodyOff ≤ d.px.bodyEnd
  body_end : d.px.bodyEnd ≤ d.input.length
  body_left : d.px.bodyLeft < 2 ^ 32
  chunk : d.px.chunk.Valid
  wrapped : d.wrapped = false

/-- The bounds concern the slot, the input and the wrapping only. -/
theorem Bounds.congr {d e : Relay} (hb : Bounds d) (hpx : e.px = d.px) (hin : e.input = d.input)
    (hw : e.wrapped = d.wrapped) : Bounds e := by
  obtain ⟨h1, h2, h3, h4, h5, h6, h7, h8, h9⟩ := hb
  rw [← hpx] at h1 h2 h3 h4 h5 h6 h7 h8
  rw [← hin] at h6
  rw [← hw] at h9
  exact ⟨h1, h2, h3, h4, h5, h6, h7, h8, h9⟩

theorem appendBytes_some {dst s dst' : List UInt8} (h : appendBytes dst s = some dst') :
    dst' = dst ++ s ∧ (dst.length ≤ PROXY_HDR_MAX → dst'.length ≤ PROXY_HDR_MAX) := by
  unfold appendBytes at h
  split at h
  · cases h
  · cases h
    refine ⟨rfl, fun hd => ?_⟩
    rw [List.length_append]
    omega

/-- The result of `finishResponse`, field by field. -/
theorem finishResponse_final {req : HttpRequest} {px px' : ProxyConn} {code : Nat} {http10 : Bool}
    {acc : ResponseLines} (h : finishResponse req px code http10 acc = .final px') :
    ¬ (acc.contentLength.isSome ∧ acc.chunked) ∧
    appendBytes acc.hdr (if px'.flags.clientKeep then CONNECTION_KEEP else CONNECTION_CLOSE) =
      some px'.hdr ∧
    px' = { px with
      status := code
      respLeft := acc.contentLength.getD 0
      chunk := .start
      hdrOff := 0
      hdr := px'.hdr
      flags := { px.flags with
        respCl := acc.contentLength.isSome
        respChunked := acc.chunked
        respEof := decide (¬ (code = 204 ∨ code = 304) ∧ acc.contentLength = none ∧ ¬ acc.chunked)
        bodyDone := decide ((code = 204 ∨ code = 304) ∨
          (acc.contentLength.isSome ∧ acc.contentLength.getD 0 = 0))
        upClose := px.flags.upClose || acc.upClose || (http10 && !acc.upKeepAlive)
        clientKeep := px.flags.clientKeep || httpShouldKeepalive req } } := by
  unfold finishResponse at h
  split at h
  · cases h
  · rename_i hbad
    simp only at h
    split at h
    · cases h
    · rename_i hdr happ
      cases h
      exact ⟨hbad, happ, rfl⟩

/-- A final head comes from its status line and its header lines. -/
theorem rewriteResponse_final {req : HttpRequest} {px px' : ProxyConn} {src : List UInt8}
    (h : rewriteResponse req px src = .final px') :
    ∃ eol code hdr acc, findCrlf src = some eol ∧ statusCode (src.take eol) = some code ∧
      ¬ (100 ≤ code ∧ code < 200) ∧ appendBytes [] (src.take (eol + 2)) = some hdr ∧
      responseLines src.length (src.drop (eol + 2)) ⟨hdr, none, false, false, false⟩ = some acc ∧
      finishResponse req px code (src[7]? == some 0x30) acc = .final px' := by
  unfold rewriteResponse at h
  split at h
  · cases h
  split at h
  · cases h
  split at h
  · split at h <;> cases h
  split at h
  · cases h
  split at h
  · cases h
  · exact ⟨_, _, _, _, ‹_›, ‹_›, ‹_›, ‹_›, ‹_›, h⟩

/-- A field line leaves what was collected before. -/
theorem responseLine_hdr {name v : List UInt8} {acc acc' : ResponseLines}
    (h : responseLine name v acc = some acc') : acc'.hdr = acc.hdr := by
  unfold responseLine at h
  split at h
  · split at h
    · cases h
    · obtain ⟨cl, -, rfl⟩ := Option.map_eq_some_iff.1 h
      rfl
  split at h
  · split at h <;> cases h
    rfl
  split at h <;> cases h <;> rfl

theorem responseLines_hdr_le (n : Nat) : ∀ {p : List UInt8} {acc acc' : ResponseLines},
    responseLines n p acc = some acc' → acc.hdr.length ≤ PROXY_HDR_MAX →
      acc'.hdr.length ≤ PROXY_HDR_MAX := by
  induction n with
  | zero =>
      intro p acc acc' h hle
      cases h
      exact hle
  | succ n ih =>
      intro p acc acc' h hle
      rw [responseLines] at h
      split at h
      · cases h
        exact hle
      split at h
      · cases h
      split at h
      · cases h
      simp only at h
      split at h
      · cases h
      · rename_i hline
        have hhdr := responseLine_hdr hline
        rw [← hhdr] at hle
        split at h
        · exact ih h hle
        split at h
        · cases h
        · rename_i happ
          exact ih h ((appendBytes_some happ).2 hle)

/-- A rewritten head fits `px->hdr`. -/
theorem rewriteResponse_hdr_le {req : HttpRequest} {px px' : ProxyConn} {src : List UInt8}
    (h : rewriteResponse req px src = .final px') : px'.hdr.length ≤ PROXY_HDR_MAX := by
  obtain ⟨eol, code, hdr, acc, -, -, -, happ, hlines, hfin⟩ := rewriteResponse_final h
  have h0 := (appendBytes_some happ).2 (Nat.zero_le _)
  exact (appendBytes_some (finishResponse_final hfin).2.1).2 (responseLines_hdr_le _ hlines h0)

/-- What a final head leaves as it was, and what it resets. -/
structure HeadFrame (px px' : ProxyConn) : Prop where
  fd : px'.fd = px.fd
  phase : px'.phase = px.phase
  contOff : px'.contOff = px.contOff
  hdrOff : px'.hdrOff = 0
  hdr_len : px'.hdr.length ≤ PROXY_HDR_MAX
  chunk : px'.chunk = .start
  bodyOff : px'.bodyOff = px.bodyOff
  bodyEnd : px'.bodyEnd = px.bodyEnd
  bodyLeft : px'.bodyLeft = px.bodyLeft
  flags : px'.flags = { px.flags with
    respCl := px'.flags.respCl
    respChunked := px'.flags.respChunked
    respEof := px'.flags.respEof
    bodyDone := px'.flags.bodyDone
    upClose := px'.flags.upClose
    clientKeep := px'.flags.clientKeep }

/-- What `rewrite_response` leaves alone. -/
theorem rewriteResponse_frame {req : HttpRequest} {px px' : ProxyConn} {src : List UInt8}
    (h : rewriteResponse req px src = .final px') : HeadFrame px px' := by
  obtain ⟨eol, code, hdr, acc, -, -, -, -, -, hfin⟩ := rewriteResponse_final h
  have hpx := (finishResponse_final hfin).2.2
  constructor
  case fd => rw [hpx]
  case phase => rw [hpx]
  case contOff => rw [hpx]
  case hdrOff => rw [hpx]
  case hdr_len => exact rewriteResponse_hdr_le h
  case chunk => rw [hpx]
  case bodyOff => rw [hpx]
  case bodyEnd => rw [hpx]
  case bodyLeft => rw [hpx]
  case flags => rw [hpx]

/-- What `note_body` leaves as it was; it only cuts the buffer. -/
structure NoteFrame (px px' : ProxyConn) : Prop where
  fd : px'.fd = px.fd
  phase : px'.phase = px.phase
  contOff : px'.contOff = px.contOff
  hdrOff : px'.hdrOff = px.hdrOff
  hdr : px'.hdr = px.hdr
  bufOff : px'.bufOff = px.bufOff
  buf : ∃ k, px'.buf = px.buf.take k
  bodyOff : px'.bodyOff = px.bodyOff
  bodyEnd : px'.bodyEnd = px.bodyEnd
  bodyLeft : px'.bodyLeft = px.bodyLeft
  status : px'.status = px.status
  flags : px'.flags = { px.flags with
    overread := px'.flags.overread
    bodyDone := px'.flags.bodyDone }

theorem NoteFrame.refl (px : ProxyConn) : NoteFrame px px :=
  ⟨rfl, rfl, rfl, rfl, rfl, rfl, ⟨px.buf.length, by rw [List.take_length]⟩, rfl, rfl, rfl, rfl,
    rfl⟩

/-- What `note_body` leaves alone. -/
theorem noteBody_frame {px px' : ProxyConn} {n : Nat} (h : noteBody px n = some px') :
    NoteFrame px px' := by
  unfold noteBody at h
  split at h
  · rw [← Option.some.inj h]
    exact .refl px
  split at h
  · simp only at h
    split at h
    · cases h
    · rw [← Option.some.inj h]
      refine ⟨rfl, rfl, rfl, rfl, rfl, rfl, ?_, rfl, rfl, rfl, rfl, rfl⟩
      by_cases hc : (chunkFeed px.chunk (px.buf.drop (sub32 px.buf.length n))).1 < n
      · exact ⟨_, if_pos hc⟩
      · exact ⟨px.buf.length, (if_neg hc).trans List.take_length.symm⟩
  split at h
  · rw [← Option.some.inj h]
    exact ⟨rfl, rfl, rfl, rfl, rfl, rfl, ⟨_, rfl⟩, rfl, rfl, rfl, rfl, rfl⟩
  · rw [← Option.some.inj h]
    exact .refl px

/-- The chunk decoder stays valid. -/
theorem noteBody_chunk_valid {px px' : ProxyConn} {n : Nat} (h : noteBody px n = some px')
    (hv : px.chunk.Valid) : px'.chunk.Valid := by
  unfold noteBody at h
  split at h
  · rw [← Option.some.inj h]
    exact hv
  split at h
  · simp only at h
    split at h
    · cases h
    · rw [← Option.some.inj h, chunkFeed_eq_scanChunks hv]
      exact scanChunks_valid _ hv
  split at h
  · rw [← Option.some.inj h]
    exact hv
  · rw [← Option.some.inj h]
    exact hv

/-- The offsets stay in their buffers when a head is taken. -/
theorem Relay.takeHead_bounds {d d' : Relay} {px : ProxyConn} {rest : List UInt8}
    (hb : Bounds d) (hhdr : px.hdr.length ≤ PROXY_HDR_MAX) (hoff : px.hdrOff = 0)
    (hbody : px.bodyOff = d.px.bodyOff ∧ px.bodyEnd = d.px.bodyEnd ∧ px.bodyLeft = d.px.bodyLeft)
    (hchunk : px.chunk.Valid) (hrest : rest.length ≤ PROXY_BUF_MAX)
    (h : d.takeHead px rest = some d') : Bounds d' := by
  obtain ⟨h1, h2, h3⟩ := hbody
  unfold Relay.takeHead at h
  simp only at h
  split at h
  · cases h
    exact ⟨by simp [hoff], hhdr, le_rfl, Nat.zero_le _, by rw [h1, h2]; exact hb.body_off,
      by rw [h2]; exact hb.body_end, by rw [h3]; exact hb.body_left, hchunk, hb.wrapped⟩
  · obtain ⟨px', hnote, rfl⟩ := Option.map_eq_some_iff.1 h
    have hf := noteBody_frame hnote
    have hv : px'.chunk.Valid := noteBody_chunk_valid hnote hchunk
    obtain ⟨k, hk⟩ := hf.buf
    constructor
    case hdr_off =>
      show px'.hdrOff ≤ px'.hdr.length
      rw [hf.hdrOff]
      exact hoff.trans_le (Nat.zero_le _)
    case hdr_len =>
      show px'.hdr.length ≤ _
      rw [hf.hdr]
      exact hhdr
    case buf_off =>
      show px'.bufOff ≤ _
      rw [hf.bufOff]
      exact Nat.zero_le _
    case buf_len =>
      show px'.buf.length ≤ _
      rw [hk]
      exact (List.length_take_le' _ _).trans hrest
    case body_off =>
      show px'.bodyOff ≤ px'.bodyEnd
      rw [hf.bodyOff, hf.bodyEnd]
      exact h1.trans_le (hb.body_off.trans_eq h2.symm)
    case body_end =>
      show px'.bodyEnd ≤ _
      rw [hf.bodyEnd]
      exact h2.trans_le hb.body_end
    case body_left =>
      show px'.bodyLeft < _
      rw [hf.bodyLeft]
      exact h3.trans_lt hb.body_left
    case chunk => exact hv
    case wrapped => exact hb.wrapped

/-- A move keeps the bounds. -/
theorem Move.bounds {resend : Prop} {d d' : Relay} (h : Move resend d d') (hb : Bounds d) : Bounds d' := by
  cases h with
  | sendContinue n h100 =>
      exact ⟨hb.hdr_off, hb.hdr_len, hb.buf_off, hb.buf_len, hb.body_off, hb.body_end,
        hb.body_left, hb.chunk, hb.wrapped⟩
  | endContinue h100 hall =>
      exact ⟨hb.hdr_off, hb.hdr_len, hb.buf_off, hb.buf_len, hb.body_off, hb.body_end,
        hb.body_left, hb.chunk, hb.wrapped⟩
  | sendHead n hphase hn =>
      -- Each send stays within what there is to send; the other offsets are not touched.
      have := hb.hdr_off
      exact ⟨by show d.px.hdrOff + n ≤ d.px.hdr.length; omega, hb.hdr_len, hb.buf_off, hb.buf_len,
        hb.body_off, hb.body_end, hb.body_left, hb.chunk, hb.wrapped⟩
  | reopen fd hphase hreused hoff =>
      exact ⟨hb.hdr_off, hb.hdr_len, hb.buf_off, hb.buf_len, hb.body_off, hb.body_end,
        hb.body_left, hb.chunk, hb.wrapped⟩
  | toSendBody hphase hout hbody =>
      exact ⟨hb.hdr_off, hb.hdr_len, hb.buf_off, hb.buf_len, hb.body_off, hb.body_end,
        hb.body_left, hb.chunk, hb.wrapped⟩
  | headSent hphase hout hbody =>
      exact ⟨hb.hdr_off, hb.hdr_len, le_rfl, Nat.zero_le _, hb.body_off, hb.body_end,
        hb.body_left, hb.chunk, hb.wrapped⟩
  | bodySent hphase hout hbody =>
      exact ⟨hb.hdr_off, hb.hdr_len, le_rfl, Nat.zero_le _, hb.body_off, hb.body_end,
        hb.body_left, hb.chunk, hb.wrapped⟩
  | sendShuttle n hphase hn =>
      have := hb.buf_off
      exact ⟨hb.hdr_off, hb.hdr_len, by show d.px.bufOff + n ≤ d.px.buf.length; omega, hb.buf_len,
        hb.body_off, hb.body_end, hb.body_left, hb.chunk, hb.wrapped⟩
  | drained hphase hout =>
      exact ⟨hb.hdr_off, hb.hdr_len, le_rfl, Nat.zero_le _, hb.body_off, hb.body_end,
        hb.body_left, hb.chunk, hb.wrapped⟩
  | sendBuffered n hphase hout hn =>
      have := hb.body_off
      exact ⟨hb.hdr_off, hb.hdr_len, hb.buf_off, hb.buf_len,
        by show d.px.bodyOff + n ≤ d.px.bodyEnd; omega, hb.body_end, hb.body_left, hb.chunk,
        hb.wrapped⟩
  | readBody bytes hphase hout hoff hlen =>
      -- The read asks for no more than the buffer and the body have room for.
      have := hb.body_left
      exact ⟨hb.hdr_off, hb.hdr_len, Nat.zero_le _, hlen.trans (Nat.min_le_left _ _), hb.body_off,
        hb.body_end, by show d.px.bodyLeft - bytes.length < 2 ^ 32; omega, hb.chunk, hb.wrapped⟩
  | readHead bytes hphase hlen =>
      have := hb.buf_off
      exact ⟨hb.hdr_off, hb.hdr_len,
        by show d.px.bufOff ≤ (d.px.buf ++ bytes).length; rw [List.length_append]; omega,
        by show (d.px.buf ++ bytes).length ≤ _; rw [List.length_append]; exact hlen, hb.body_off,
        hb.body_end, hb.body_left, hb.chunk, hb.wrapped⟩
  | upstreamEof hphase =>
      exact ⟨hb.hdr_off, hb.hdr_len, hb.buf_off, hb.buf_len, hb.body_off, hb.body_end,
        hb.body_left, hb.chunk, hb.wrapped⟩
  | retryIdle fd hphase hreused hsent hbuf hmethod hbody =>
      exact ⟨Nat.zero_le _, hb.hdr_len, Nat.zero_le _, hb.buf_len, hb.body_off, hb.body_end,
        hb.body_left, hb.chunk, hb.wrapped⟩
  | skipHead i hphase hend hskip =>
      have := hb.buf_len
      exact ⟨hb.hdr_off, hb.hdr_len, Nat.zero_le _,
        by show (d.px.buf.drop (i + 4)).length ≤ _; rw [List.length_drop]; omega, hb.body_off,
        hb.body_end, hb.body_left, hb.chunk, hb.wrapped⟩
  | finalHead _ i px hphase hend hfinal htake =>
      have hf := rewriteResponse_frame hfinal
      have hlen := hb.buf_len
      refine Relay.takeHead_bounds hb hf.hdr_len hf.hdrOff ⟨hf.bodyOff, hf.bodyEnd, hf.bodyLeft⟩
        (by rw [hf.chunk]; exact ChunkScan.start_valid) ?_ htake
      rw [List.length_drop]
      omega
  | sendGathered n hphase h100 hdone hpos hn =>
      have h1 := hb.hdr_off
      have h2 := hb.buf_off
      rw [List.length_append, List.length_drop, List.length_drop] at hn
      refine ⟨?_, hb.hdr_len, ?_, hb.buf_len, hb.body_off, hb.body_end, hb.body_left, hb.chunk,
        hb.wrapped⟩
      · show d.px.hdrOff + min n (d.px.hdr.drop d.px.hdrOff).length ≤ d.px.hdr.length
        rw [List.length_drop]
        omega
      · show d.px.bufOff + (n - (d.px.hdr.drop d.px.hdrOff).length) ≤ d.px.buf.length
        rw [List.length_drop]
        omega
  | sendRespHead n hphase h100 hn =>
      have := hb.hdr_off
      exact ⟨by show d.px.hdrOff + n ≤ d.px.hdr.length; omega, hb.hdr_len, hb.buf_off, hb.buf_len,
        hb.body_off, hb.body_end, hb.body_left, hb.chunk, hb.wrapped⟩
  | toStream hphase hout =>
      exact ⟨hb.hdr_off, hb.hdr_len, hb.buf_off, hb.buf_len, hb.body_off, hb.body_end,
        hb.body_left, hb.chunk, hb.wrapped⟩
  | sendStream n hphase h100 hn =>
      have := hb.buf_off
      exact ⟨hb.hdr_off, hb.hdr_len, by show d.px.bufOff + n ≤ d.px.buf.length; omega, hb.buf_len,
        hb.body_off, hb.body_end, hb.body_left, hb.chunk, hb.wrapped⟩
  | endOfLength hphase hout hcl hleft =>
      exact ⟨hb.hdr_off, hb.hdr_len, hb.buf_off, hb.buf_len, hb.body_off, hb.body_end,
        hb.body_left, hb.chunk, hb.wrapped⟩
  | readStream bytes px hphase hout hdone hlen hnote =>
      -- `note_body` may cut the buffer at the end of the body, and keeps everything else.
      have hf := noteBody_frame hnote
      obtain ⟨k, hk⟩ := hf.buf
      constructor
      case hdr_off =>
        show px.hdrOff ≤ px.hdr.length
        rw [hf.hdrOff, hf.hdr]
        exact hb.hdr_off
      case hdr_len =>
        show px.hdr.length ≤ _
        rw [hf.hdr]
        exact hb.hdr_len
      case buf_off =>
        show px.bufOff ≤ _
        rw [hf.bufOff]
        exact Nat.zero_le _
      case buf_len =>
        show px.buf.length ≤ _
        rw [hk]
        exact (List.length_take_le' _ _).trans hlen
      case body_off =>
        show px.bodyOff ≤ px.bodyEnd
        rw [hf.bodyOff, hf.bodyEnd]
        exact hb.body_off
      case body_end =>
        show px.bodyEnd ≤ _
        rw [hf.bodyEnd]
        exact hb.body_end
      case body_left =>
        show px.bodyLeft < _
        rw [hf.bodyLeft]
        exact hb.body_left
      case chunk => exact noteBody_chunk_valid hnote hb.chunk
      case wrapped => exact hb.wrapped

/-- The run lemma for the bounds. -/
theorem Moves.bounds {resend : Prop} {d d' : Relay} (h : Moves resend d d') (hb : Bounds d) : Bounds d' := by
  induction h with
  | refl => exact hb
  | tail _ hm ih => exact hm.bounds ih

end TinyServer.Proxy
