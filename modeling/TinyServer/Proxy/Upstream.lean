import Mathlib.Data.List.Infix
import TinyServer.Lib.Transfer
import TinyServer.Proxy.Exchange

/-!
# What goes upstream

The request an exchange owes to its upstream is the rewritten head and the first
`content_length` bytes after the head in the client stream. The stream is read
from two places, the header buffer and then the client socket, through one shuttle
buffer; `UpInv` says which part of it has been taken and where that part is.
-/

set_option autoImplicit false

namespace TinyServer.Proxy

open TinyServer.Http TinyServer.Net TinyServer.Lib

namespace Relay

/-- The bytes after the head in the client stream, as far as they were read. -/
def stream (d : Relay) : List UInt8 := d.input.drop d.req.headerBytes ++ d.clientIn

/-- The body of the request, as far as it was read. -/
def body (d : Relay) : List UInt8 := d.stream.take d.need

/-- The part of the body that was taken from the header buffer or the client
socket to be sent. -/
def taken (d : Relay) : List UInt8 :=
  (d.input.take d.px.bodyOff).drop d.req.headerBytes ++ d.clientIn

/-- What each upstream connection was sent, newest first. -/
def sent (d : Relay) : List (List UInt8) := d.conns.map (·.sent)

end Relay

theorem map_sent_onNewest (conns : List UpstreamConn) (f : UpstreamConn → UpstreamConn)
    (hf : ∀ c, (f c).sent = c.sent) :
    (onNewest conns f).map (·.sent) = conns.map (·.sent) := by
  cases conns with
  | nil => rfl
  | cons c cs =>
      rw [onNewest_cons, List.map_cons, List.map_cons, hf]

/-! ## The counters of the body -/

/-- How the counters of the body account for the bytes read. -/
structure BodyInv (d : Relay) : Prop where
  start : d.req.headerBytes ≤ d.px.bodyOff
  off_le : d.px.bodyOff ≤ d.px.bodyEnd
  input : d.req.headerBytes ≤ d.input.length
  bodyEnd : d.px.bodyEnd =
    d.req.headerBytes + min (d.input.length - d.req.headerBytes) d.need
  left : d.px.bodyLeft + (d.px.bodyEnd - d.req.headerBytes) + d.clientIn.length = d.need
  client : d.clientIn = [] ∨ d.px.bodyOff = d.px.bodyEnd

namespace BodyInv

variable {d : Relay} (h : BodyInv d)

include h

/-- As much of the stream is taken as the offsets and the client's reads say. -/
theorem taken_length :
    d.taken.length = (d.px.bodyOff - d.req.headerBytes) + d.clientIn.length := by
  have h1 := h.off_le
  have h2 := h.bodyEnd
  have h3 := h.input
  unfold Relay.taken
  rw [List.length_append, List.length_drop, List.length_take]
  omega

/-- What is taken of the body is the start of what the client sends. -/
theorem taken_prefix_stream : d.taken <+: d.stream := by
  unfold Relay.taken Relay.stream
  rcases h.client with hnil | hoff
  · rw [hnil, List.append_nil, List.append_nil]
    exact (List.take_prefix _ _).drop _
  · by_cases hnil : d.clientIn = []
    · rw [hnil, List.append_nil, List.append_nil]
      exact (List.take_prefix _ _).drop _
    · -- Bytes came from the client socket, so the header buffer is used up.
      have hpos := List.length_pos_iff.2 hnil
      have h1 := h.bodyEnd
      have h2 := h.left
      have hall : d.px.bodyOff = d.input.length := by
        have := h.input
        omega
      rw [hall, List.take_length]

/-- What is taken never goes past the body the request declares. -/
theorem taken_prefix : d.taken <+: d.body := by
  refine List.prefix_take_iff.2 ⟨h.taken_prefix_stream, ?_⟩
  have h1 := h.taken_length
  have h2 := h.off_le
  have h3 := h.left
  omega

/-- Once all is taken, it is the whole body. -/
theorem taken_eq (hbody : ¬ d.HasBody) : d.taken = d.body ∧ d.body.length = d.need := by
  obtain ⟨hoff, hleft⟩ := not_or.1 hbody
  have h1 := h.taken_length
  have h2 := h.off_le
  have h3 := h.left
  have hlen : d.taken.length = d.need := by omega
  have hpre := h.taken_prefix
  have hle : d.body.length ≤ d.need := List.length_take_le _ _
  have heq := hpre.eq_of_length_le (by omega)
  exact ⟨heq, by rw [← heq, hlen]⟩

/-- Sending `n` more bytes of the header buffer. -/
theorem advance {n : Nat} (hn : n ≤ d.px.bodyEnd - d.px.bodyOff) :
    BodyInv { d with px := { d.px with bodyOff := d.px.bodyOff + n } } := by
  have h1 := h.off_le
  have h2 := h.start
  refine ⟨h2.trans (Nat.le_add_right _ _), ?_, h.input, h.bodyEnd, h.left, ?_⟩
  · show d.px.bodyOff + n ≤ d.px.bodyEnd
    omega
  · refine h.client.imp_right fun hoff => ?_
    show d.px.bodyOff + n = d.px.bodyEnd
    omega

/-- Sending `n` bytes of the body from the buffer moves `n` bytes into `taken`. -/
theorem taken_advance {n : Nat} (hend : d.px.bodyEnd ≤ d.input.length)
    (hn : n ≤ d.px.bodyEnd - d.px.bodyOff) :
    Relay.taken { d with px := { d.px with bodyOff := d.px.bodyOff + n } } =
      d.taken ++ ((d.input.take d.px.bodyEnd).drop d.px.bodyOff).take n := by
  have h1 := h.off_le
  have h2 := h.start
  have hpiece : ((d.input.take d.px.bodyEnd).drop d.px.bodyOff).take n =
      (d.input.drop d.px.bodyOff).take n := by
    rw [List.drop_take, List.take_take, Nat.min_eq_left hn]
  have hlen : (d.input.take d.px.bodyOff).length = d.px.bodyOff := by
    rw [List.length_take]
    omega
  unfold Relay.taken
  show (d.input.take (d.px.bodyOff + n)).drop d.req.headerBytes ++ d.clientIn = _
  rw [hpiece, List.take_add, List.drop_append_of_le_length (by rw [hlen]; exact h2)]
  rcases h.client with hnil | hoff
  · rw [hnil, List.append_nil, List.append_nil]
  · have h0 : n = 0 := by omega
    rw [h0, List.take_zero, List.append_nil, List.append_nil]

/-- Neither the header buffer nor the client socket was read past the body. -/
theorem read_le : (d.px.bodyEnd - d.req.headerBytes) + d.clientIn.length ≤ d.need := by
  have := h.left
  omega

end BodyInv

/-! ## The invariant -/

/-- What the newest connection was sent, by phase. A request that was sent again
from its head alone has its body used up in `PX_SEND_REQ`. -/
def UpPhase (resend : Prop) (head : List UInt8) (d : Relay) (sent : List UInt8) : Prop :=
  match d.px.phase with
  | .none => False
  | .sendReq =>
      d.px.hdr = head ∧ d.px.buf = [] ∧ sent = head.take d.px.hdrOff ∧
        ((d.px.bodyOff = d.req.headerBytes ∧ d.clientIn = []) ∨ (resend ∧ ¬ d.HasBody))
  | .sendBody => d.px.hdr = head ∧ sent ++ d.px.buf.drop d.px.bufOff = head ++ d.taken
  | .recvHdr =>
      d.px.hdr = head ∧ ¬ d.HasBody ∧ sent <+: head ++ d.body ∧ (sent = head ++ d.body ∨ resend)
  | .sendResp | .stream => sent <+: head ++ d.body

/-- The invariant: every connection was sent part of the request, and the newest one what its
phase says. -/
structure UpInv (resend : Prop) (head : List UInt8) (d : Relay) : Prop where
  bounds : Bounds d
  body : BodyInv d
  conns : ∃ s ss, d.sent = s :: ss ∧ (∀ o ∈ ss, o <+: head ++ d.body) ∧ UpPhase resend head d s

/-- The request of a relay state and how much of its body was read. -/
structure SameRequest (d e : Relay) : Prop where
  req : e.req = d.req
  input : e.input = d.input
  clientIn : e.clientIn = d.clientIn
  bodyOff : e.px.bodyOff = d.px.bodyOff
  bodyEnd : e.px.bodyEnd = d.px.bodyEnd
  bodyLeft : e.px.bodyLeft = d.px.bodyLeft

namespace SameRequest

variable {d e : Relay} (h : SameRequest d e)

include h

theorem need_eq : e.need = d.need := by
  unfold Relay.need
  rw [h.req]

theorem body_eq : e.body = d.body := by
  unfold Relay.body Relay.stream
  rw [h.need_eq, h.input, h.req, h.clientIn]

theorem taken_eq : e.taken = d.taken := by
  unfold Relay.taken
  rw [h.input, h.req, h.clientIn, h.bodyOff]

theorem bodyInv (hb : BodyInv d) : BodyInv e := by
  constructor
  case start => rw [h.req, h.bodyOff]; exact hb.start
  case off_le => rw [h.bodyOff, h.bodyEnd]; exact hb.off_le
  case input => rw [h.req, h.input]; exact hb.input
  case bodyEnd => rw [h.bodyEnd, h.req, h.input, h.need_eq]; exact hb.bodyEnd
  case left => rw [h.bodyLeft, h.bodyEnd, h.req, h.clientIn, h.need_eq]; exact hb.left
  case client => rw [h.clientIn, h.bodyOff, h.bodyEnd]; exact hb.client

end SameRequest

section Invariant

variable {resend : Prop} {head : List UInt8} {d e : Relay}

/-- A move that sends nothing upstream and takes nothing of the body. -/
theorem UpInv.keep (hi : UpInv resend head d) (hb : Bounds e) (hsame : SameRequest d e)
    (hsent : e.sent = d.sent)
    (hphase : ∀ s, UpPhase resend head d s → UpPhase resend head e s) : UpInv resend head e := by
  obtain ⟨s, ss, hs, hold, hp⟩ := hi.conns
  refine ⟨hb, hsame.bodyInv hi.body, s, ss, hsent.trans hs, ?_, hphase s hp⟩
  rw [hsame.body_eq]
  exact hold

/-- A move on the way of the response, which no longer touches the request. -/
theorem UpInv.late (hi : UpInv resend head d) (hb : Bounds e) (hsame : SameRequest d e)
    (hsent : e.sent = d.sent)
    (hd : d.px.phase = .recvHdr ∨ d.px.phase = .sendResp ∨ d.px.phase = .stream)
    (he : e.px.phase = .sendResp ∨ e.px.phase = .stream) : UpInv resend head e := by
  refine hi.keep hb hsame hsent fun s hp => ?_
  have hpre : s <+: head ++ d.body := by
    unfold UpPhase at hp
    rcases hd with h | h | h <;> rw [h] at hp
    · exact hp.2.2.1
    · exact hp
    · exact hp
  unfold UpPhase
  rw [hsame.body_eq]
  rcases he with h | h <;> rw [h] <;> exact hpre

/-- The head of a response concerns neither the request nor the connections. -/
theorem takeHead_same {px : ProxyConn} {rest : List UInt8} (hf : HeadFrame d.px px)
    (htake : d.takeHead px rest = some e) :
    SameRequest d e ∧ e.conns = d.conns ∧ e.px.phase = .sendResp := by
  unfold Relay.takeHead at htake
  simp only at htake
  split at htake
  · rw [← Option.some.inj htake]
    exact ⟨⟨rfl, rfl, rfl, hf.bodyOff, hf.bodyEnd, hf.bodyLeft⟩, rfl, rfl⟩
  · obtain ⟨px₂, hn, rfl⟩ := Option.map_eq_some_iff.1 htake
    have hnf := noteBody_frame hn
    exact ⟨⟨rfl, rfl, rfl, hnf.bodyOff.trans hf.bodyOff, hnf.bodyEnd.trans hf.bodyEnd,
      hnf.bodyLeft.trans hf.bodyLeft⟩, rfl, rfl⟩

/-- The request is out: `PX_RECV_HDR` starts with nothing left of it. -/
theorem UpInv.toRecvHdr {s : List UInt8} {ss : List (List UInt8)} (hi : UpInv resend head d)
    (hb : Bounds d.toRecvHdr) (hhdr : d.px.hdr = head) (hbody : ¬ d.HasBody)
    (hs : d.sent = s :: ss) (hold : ∀ o ∈ ss, o <+: head ++ d.body)
    (hsent : s = head ++ d.body ∨ (resend ∧ s = head)) : UpInv resend head d.toRecvHdr := by
  refine ⟨hb, SameRequest.bodyInv (d := d) ⟨rfl, rfl, rfl, rfl, rfl, rfl⟩ hi.body, s, ss, hs, hold, ?_⟩
  refine ⟨hhdr, hbody, ?_, ?_⟩
  · rcases hsent with rfl | ⟨-, rfl⟩
    · exact List.prefix_refl _
    · exact List.prefix_append _ _
  · exact hsent.imp_right And.left

/-- A send on the upstream socket extends what the newest connection was sent. -/
theorem sendUp_sent {s bytes : List UInt8} {ss : List (List UInt8)} (hs : d.sent = s :: ss) :
    (d.sendUp bytes).sent = (s ++ bytes) :: ss := by
  unfold Relay.sent Relay.sendUp at *
  cases hc : d.conns with
  | nil =>
      rw [hc] at hs
      cases hs
  | cons c cs =>
      rw [hc] at hs
      cases hs
      rfl

/-- What is known in `PX_SEND_REQ`. -/
theorem UpInv.inReq (hi : UpInv resend head d) (hphase : d.px.phase = .sendReq) :
    ∃ s ss, d.sent = s :: ss ∧ (∀ o ∈ ss, o <+: head ++ d.body) ∧ d.px.hdr = head ∧
      d.px.buf = [] ∧ s = head.take d.px.hdrOff ∧
      ((d.px.bodyOff = d.req.headerBytes ∧ d.clientIn = []) ∨ (resend ∧ ¬ d.HasBody)) := by
  obtain ⟨s, ss, hs, hold, hp⟩ := hi.conns
  unfold UpPhase at hp
  rw [hphase] at hp
  exact ⟨s, ss, hs, hold, hp⟩

/-- What is known in `PX_SEND_BODY`. -/
theorem UpInv.inBody (hi : UpInv resend head d) (hphase : d.px.phase = .sendBody) :
    ∃ s ss, d.sent = s :: ss ∧ (∀ o ∈ ss, o <+: head ++ d.body) ∧ d.px.hdr = head ∧
      s ++ d.px.buf.drop d.px.bufOff = head ++ d.taken := by
  obtain ⟨s, ss, hs, hold, hp⟩ := hi.conns
  unfold UpPhase at hp
  rw [hphase] at hp
  exact ⟨s, ss, hs, hold, hp⟩

/-- Nothing is taken before the body starts. -/
theorem BodyInv.taken_nil (h : BodyInv d) (hoff : d.px.bodyOff = d.req.headerBytes)
    (hnil : d.clientIn = []) : d.taken = [] := by
  refine List.length_eq_zero_iff.1 ?_
  rw [h.taken_length, hoff, hnil, Nat.sub_self]
  rfl

/-! ### The moves that concern the request -/

/-- Part of the head goes out. -/
theorem UpInv.sendHead (hi : UpInv resend head d) {n : Nat} (hphase : d.px.phase = .sendReq)
    (hn : n ≤ d.px.hdr.length - d.px.hdrOff) :
    UpInv resend head ({ d with px := { d.px with hdrOff := d.px.hdrOff + n } }.sendUp
      ((d.px.hdr.drop d.px.hdrOff).take n)) := by
  have hb := (Move.sendHead d n hphase hn : Move resend d _).bounds hi.bounds
  obtain ⟨s, ss, hs, hold, hhdr, hbuf, hsent, hstart⟩ := hi.inReq hphase
  refine ⟨hb, SameRequest.bodyInv (d := d) ⟨rfl, rfl, rfl, rfl, rfl, rfl⟩ hi.body, _, ss,
    sendUp_sent (d := { d with px := { d.px with hdrOff := d.px.hdrOff + n } }) hs, hold, ?_⟩
  show UpPhase resend head { d with px := { d.px with hdrOff := d.px.hdrOff + n } } _
  unfold UpPhase
  simp only [hphase]
  refine ⟨hhdr, hbuf, ?_, hstart⟩
  rw [hsent, hhdr, List.take_add]

/-- A new connection, before anything of the head went out. -/
theorem UpInv.reopen (hi : UpInv resend head d) {fd : Nat} (hphase : d.px.phase = .sendReq)
    (hreused : d.px.flags.reused = true) (hoff : d.px.hdrOff = 0) :
    UpInv resend head { d with
      up := true
      px := { d.px with flags := { d.px.flags with reused := false } }
      conns := ⟨fd, false, [], [], false⟩ :: d.conns } := by
  have hb := (Move.reopen d fd hphase hreused hoff : Move resend d _).bounds hi.bounds
  obtain ⟨s, ss, hs, hold, hhdr, hbuf, hsent, hstart⟩ := hi.inReq hphase
  refine ⟨hb, SameRequest.bodyInv (d := d) ⟨rfl, rfl, rfl, rfl, rfl, rfl⟩ hi.body, [], s :: ss,
    congrArg (List.cons []) hs, ?_, ?_⟩
  · intro o ho
    rcases List.mem_cons.1 ho with rfl | ho
    · rw [hsent, hoff]
      exact List.nil_prefix
    · exact hold o ho
  · unfold UpPhase
    simp only [hphase]
    exact ⟨hhdr, hbuf, by rw [hoff]; rfl, hstart⟩

/-- The head is out, and a body follows. -/
theorem UpInv.toSendBody (hi : UpInv resend head d) (hphase : d.px.phase = .sendReq)
    (hout : d.px.hdr.length ≤ d.px.hdrOff) (hbody : d.HasBody) :
    UpInv resend head { d with px := { d.px with phase := .sendBody } } := by
  have hb := (Move.toSendBody d hphase hout hbody : Move resend d _).bounds hi.bounds
  obtain ⟨s, ss, hs, hold, hhdr, hbuf, hsent, hstart⟩ := hi.inReq hphase
  obtain ⟨hoff, hnil⟩ : d.px.bodyOff = d.req.headerBytes ∧ d.clientIn = [] := by
    rcases hstart with h | ⟨-, h⟩
    · exact h
    · exact absurd hbody h
  refine ⟨hb, SameRequest.bodyInv (d := d) ⟨rfl, rfl, rfl, rfl, rfl, rfl⟩ hi.body, s, ss, hs,
    hold, hhdr, ?_⟩
  have htaken := hi.body.taken_nil hoff hnil
  show s ++ d.px.buf.drop d.px.bufOff = head ++ d.taken
  rw [htaken, hbuf, List.drop_nil, hsent, List.take_of_length_le (hhdr ▸ hout)]

/-- The head is out, and nothing follows. -/
theorem UpInv.headSent (hi : UpInv resend head d) (hphase : d.px.phase = .sendReq)
    (hout : d.px.hdr.length ≤ d.px.hdrOff) (hbody : ¬ d.HasBody) :
    UpInv resend head d.toRecvHdr := by
  have hb := (Move.headSent d hphase hout hbody : Move resend d _).bounds hi.bounds
  obtain ⟨s, ss, hs, hold, hhdr, hbuf, hsent, hstart⟩ := hi.inReq hphase
  have hall : s = head := by rw [hsent, List.take_of_length_le (hhdr ▸ hout)]
  refine hi.toRecvHdr hb hhdr hbody hs hold ?_
  rcases hstart with ⟨hoff, hnil⟩ | ⟨hr, -⟩
  · left
    have htaken := hi.body.taken_nil hoff hnil
    rw [← (hi.body.taken_eq hbody).1, htaken, List.append_nil]
    exact hall
  · exact Or.inr ⟨hr, hall⟩

/-- The body is out. -/
theorem UpInv.bodySent (hi : UpInv resend head d) (hphase : d.px.phase = .sendBody)
    (hout : d.px.buf.length ≤ d.px.bufOff) (hbody : ¬ d.HasBody) :
    UpInv resend head d.toRecvHdr := by
  have hb := (Move.bodySent d hphase hout hbody : Move resend d _).bounds hi.bounds
  obtain ⟨s, ss, hs, hold, hhdr, hsent⟩ := hi.inBody hphase
  refine hi.toRecvHdr hb hhdr hbody hs hold (Or.inl ?_)
  rw [List.drop_eq_nil_of_le hout, List.append_nil, (hi.body.taken_eq hbody).1] at hsent
  exact hsent

/-- What was read from the client goes out. -/
theorem UpInv.sendShuttle (hi : UpInv resend head d) {n : Nat} (hphase : d.px.phase = .sendBody)
    (hn : n ≤ d.px.buf.length - d.px.bufOff) :
    UpInv resend head ({ d with px := { d.px with bufOff := d.px.bufOff + n } }.sendUp
      ((d.px.buf.drop d.px.bufOff).take n)) := by
  have hb := (Move.sendShuttle d n hphase hn : Move resend d _).bounds hi.bounds
  obtain ⟨s, ss, hs, hold, hhdr, hsent⟩ := hi.inBody hphase
  refine ⟨hb, SameRequest.bodyInv (d := d) ⟨rfl, rfl, rfl, rfl, rfl, rfl⟩ hi.body, _, ss,
    sendUp_sent (d := { d with px := { d.px with bufOff := d.px.bufOff + n } }) hs, hold, ?_⟩
  show UpPhase resend head { d with px := { d.px with bufOff := d.px.bufOff + n } } _
  unfold UpPhase
  simp only [hphase]
  refine ⟨hhdr, ?_⟩
  rw [sent_append_rest]
  exact hsent

/-- What the header buffer has of the body goes out. -/
theorem UpInv.sendBuffered (hi : UpInv resend head d) {n : Nat} (hphase : d.px.phase = .sendBody)
    (hout : d.px.buf.length ≤ d.px.bufOff) (hn : n ≤ d.px.bodyEnd - d.px.bodyOff) :
    UpInv resend head ({ d with px := { d.px with bodyOff := d.px.bodyOff + n } }.sendUp
      (((d.input.take d.px.bodyEnd).drop d.px.bodyOff).take n)) := by
  have hb := (Move.sendBuffered d n hphase hout hn : Move resend d _).bounds hi.bounds
  obtain ⟨s, ss, hs, hold, hhdr, hsent⟩ := hi.inBody hphase
  have h1 := hi.body.off_le
  have hadv := hi.body.taken_advance hi.bounds.body_end hn
  have hbody := hi.body.advance hn
  refine ⟨hb, ⟨hbody.1, hbody.2, hbody.3, hbody.4, hbody.5, hbody.6⟩, _, ss,
    sendUp_sent (d := { d with px := { d.px with bodyOff := d.px.bodyOff + n } }) hs, hold, ?_⟩
  show UpPhase resend head { d with px := { d.px with bodyOff := d.px.bodyOff + n } } _
  unfold UpPhase
  simp only [hphase]
  refine ⟨hhdr, ?_⟩
  rw [List.drop_eq_nil_of_le hout, List.append_nil] at hsent ⊢
  rw [hsent, List.append_assoc]
  exact congrArg (head ++ ·) hadv.symm

/-- More of the body is read from the client. -/
theorem UpInv.readBody (hi : UpInv resend head d) {bytes : List UInt8}
    (hphase : d.px.phase = .sendBody) (hout : d.px.buf.length ≤ d.px.bufOff) (hoff : d.px.bodyEnd ≤ d.px.bodyOff)
    (hlen : bytes.length ≤ min PROXY_BUF_MAX d.px.bodyLeft) :
    UpInv resend head { d with
      px := { d.px with
        bufOff := 0
        buf := bytes
        bodyLeft := d.px.bodyLeft - bytes.length }
      clientIn := d.clientIn ++ bytes } := by
  have hb := (Move.readBody d bytes hphase hout hoff hlen : Move resend d _).bounds hi.bounds
  obtain ⟨s, ss, hs, hold, hhdr, hsent⟩ := hi.inBody hphase
  have hle : bytes.length ≤ d.px.bodyLeft := hlen.trans (Nat.min_le_right _ _)
  have h1 := hi.body
  refine ⟨hb, ?_, s, ss, hs, ?_, ?_⟩
  · refine ⟨h1.start, h1.off_le, h1.input, h1.bodyEnd, ?_, Or.inr (h1.off_le.antisymm hoff)⟩
    have := h1.left
    show (d.px.bodyLeft - bytes.length) + (d.px.bodyEnd - d.req.headerBytes) +
      (d.clientIn ++ bytes).length = d.need
    rw [List.length_append]
    omega
  · intro o ho
    refine (hold o ho).trans ((List.prefix_append_right_inj head).2 ?_)
    refine List.IsPrefix.take ?_ _
    unfold Relay.stream
    rw [← List.append_assoc]
    exact List.prefix_append _ _
  · unfold UpPhase
    simp only [hphase]
    refine ⟨hhdr, ?_⟩
    rw [List.drop_eq_nil_of_le hout, List.append_nil] at hsent
    rw [List.drop_zero, hsent, List.append_assoc]
    unfold Relay.taken
    rw [List.append_assoc]

/-- The request starts over on a new connection: `body_off` stays where it is. -/
theorem UpInv.retryIdle (hi : UpInv resend head d) {fd : Nat} (hphase : d.px.phase = .recvHdr)
    (hreused : d.px.flags.reused = true) (hsent : d.px.flags.respSent = false)
    (hbuf : d.px.buf = []) (hmethod : d.req.method = .get ∨ d.req.method = .head)
    (hneed : d.need = 0 ∨ resend) :
    UpInv resend head { d with
      up := true
      px := { d.px with
        hdrOff := 0
        bufOff := 0
        phase := .sendReq
        flags := { d.px.flags with reused := false } }
      conns := ⟨fd, false, [], [], false⟩ :: d.conns } := by
  have hmove : Move resend d _ := .retryIdle d fd hphase hreused hsent hbuf hmethod hneed
  have hb := hmove.bounds hi.bounds
  obtain ⟨s, ss, hs, hold, hp⟩ := hi.conns
  unfold UpPhase at hp
  rw [hphase] at hp
  obtain ⟨hhdr, hbody, hpre, -⟩ := hp
  refine ⟨hb, SameRequest.bodyInv (d := d) ⟨rfl, rfl, rfl, rfl, rfl, rfl⟩ hi.body, [], s :: ss,
    congrArg (List.cons []) hs, ?_, hhdr, hbuf, rfl, ?_⟩
  · intro o ho
    rcases List.mem_cons.1 ho with rfl | ho
    · exact hpre
    · exact hold o ho
  · rcases hneed with hneed | hr
    · left
      have h1 := hi.body.start
      have h2 := hi.body.off_le
      have h3 := hi.body.bodyEnd
      have h4 := hi.body.left
      have hnil : d.clientIn = [] := List.length_eq_zero_iff.1 (by omega)
      exact ⟨show d.px.bodyOff = d.req.headerBytes by omega, hnil⟩
    · exact Or.inr ⟨hr, hbody⟩

/-- The step lemma. -/
theorem UpInv.move (hm : Move resend d e) (hi : UpInv resend head d) : UpInv resend head e := by
  have hb := hm.bounds hi.bounds
  cases hm with
  | sendContinue n h100 =>
      exact hi.keep hb ⟨rfl, rfl, rfl, rfl, rfl, rfl⟩ rfl fun _ h => h
  | endContinue h100 hall =>
      exact hi.keep hb ⟨rfl, rfl, rfl, rfl, rfl, rfl⟩ rfl fun _ h => h
  | sendHead n hphase hn =>
      exact hi.sendHead hphase hn
  | reopen fd hphase hreused hoff =>
      exact hi.reopen hphase hreused hoff
  | toSendBody hphase hout hbody =>
      exact hi.toSendBody hphase hout hbody
  | headSent hphase hout hbody =>
      exact hi.headSent hphase hout hbody
  | bodySent hphase hout hbody =>
      exact hi.bodySent hphase hout hbody
  | sendShuttle n hphase hn =>
      exact hi.sendShuttle hphase hn
  | drained hphase hout =>
      -- In `PX_SEND_BODY` the drained buffer was sent, so no byte of the body is lost.
      rcases hphase with hphase | hphase
      · refine hi.keep hb ⟨rfl, rfl, rfl, rfl, rfl, rfl⟩ rfl fun t ht => ?_
        unfold UpPhase at ht ⊢
        simp only [hphase] at ht ⊢
        obtain ⟨hhdr, hsent⟩ := ht
        rw [List.drop_eq_nil_of_le hout] at hsent
        exact ⟨hhdr, hsent⟩
      -- In `PX_STREAM` the request is behind.
      · exact hi.late hb ⟨rfl, rfl, rfl, rfl, rfl, rfl⟩ rfl (Or.inr (Or.inr hphase))
          (Or.inr hphase)
  | sendBuffered n hphase hout hn =>
      exact hi.sendBuffered hphase hout hn
  | readBody bytes hphase hout hoff hlen =>
      exact hi.readBody hphase hout hoff hlen
  | readHead bytes hphase hlen =>
      -- A read changes what was received, not what was sent.
      refine hi.keep hb ⟨rfl, rfl, rfl, rfl, rfl, rfl⟩ (map_sent_onNewest _ _ fun _ => rfl)
        fun t ht => ?_
      unfold UpPhase at ht ⊢
      show match d.px.phase with | _ => _
      simp only [hphase] at ht ⊢
      exact ht
  | upstreamEof hphase =>
      exact hi.keep hb ⟨rfl, rfl, rfl, rfl, rfl, rfl⟩ (map_sent_onNewest _ _ fun _ => rfl)
        fun _ h => h
  | retryIdle fd hphase hreused hsent hbuf hmethod hneed =>
      exact hi.retryIdle hphase hreused hsent hbuf hmethod hneed
  | skipHead i hphase hend hskip =>
      refine hi.keep hb ⟨rfl, rfl, rfl, rfl, rfl, rfl⟩ rfl fun t ht => ?_
      unfold UpPhase at ht ⊢
      simp only [hphase] at ht ⊢
      exact ht
  | finalHead _ i px hphase hend hfinal htake =>
      -- Taking the head ends the request's part.
      obtain ⟨hsame, hconns, hph⟩ := takeHead_same (rewriteResponse_frame hfinal) htake
      exact hi.late hb hsame (congrArg (List.map UpstreamConn.sent) hconns) (Or.inl hphase)
        (Or.inl hph)
  | sendGathered n hphase h100 hdone hpos hn =>
      exact hi.late hb ⟨rfl, rfl, rfl, rfl, rfl, rfl⟩ rfl (Or.inr (Or.inl hphase)) (Or.inl hphase)
  | sendRespHead n hphase h100 hn =>
      exact hi.late hb ⟨rfl, rfl, rfl, rfl, rfl, rfl⟩ rfl (Or.inr (Or.inl hphase)) (Or.inl hphase)
  | toStream hphase hout =>
      exact hi.late hb ⟨rfl, rfl, rfl, rfl, rfl, rfl⟩ rfl (Or.inr (Or.inl hphase)) (Or.inr rfl)
  | sendStream n hphase h100 hn =>
      exact hi.late hb ⟨rfl, rfl, rfl, rfl, rfl, rfl⟩ rfl (Or.inr (Or.inr hphase)) (Or.inr hphase)
  | endOfLength hphase hout hcl hleft =>
      exact hi.late hb ⟨rfl, rfl, rfl, rfl, rfl, rfl⟩ rfl (Or.inr (Or.inr hphase)) (Or.inr hphase)
  | readStream bytes px hphase hout hdone hlen hnote =>
      have hnf := noteBody_frame hnote
      refine hi.late hb ⟨rfl, rfl, rfl, hnf.bodyOff, hnf.bodyEnd, hnf.bodyLeft⟩
        (map_sent_onNewest _ _ fun _ => rfl) (Or.inr (Or.inr hphase)) (Or.inr ?_)
      exact hnf.phase.trans hphase

/-- The invariant of the request's side over a whole run of moves. -/
theorem UpInv.moves (hm : Moves resend d e) (hi : UpInv resend head d) :
    UpInv resend head e := by
  induction hm with
  | refl => exact hi
  | tail _ hm ih => exact ih.move hm

/-- How much of the body is in the header buffer. -/
theorem bodyHave_eq (hc : HttpConn) :
    World.bodyHave hc = min (hc.buf.length - hc.req.headerBytes) (World.bodyNeed hc) := by
  unfold World.bodyHave World.bodyNeed HttpConn.used
  by_cases hcl : hc.req.flags.contentLength = true
  · rw [if_pos hcl]
    split
    · rfl
    · rename_i h
      have : hc.buf.length ≤ hc.req.headerBytes := by
        by_contra hlt
        exact h ⟨hcl, by omega⟩
      omega
  · rw [if_neg hcl, if_neg fun h => hcl h.1, Nat.min_zero]

/-- It holds when the exchange starts. -/
theorem Starts.upInv {w : World} (hw : Begins w) (hs : Starts w head d) :
    UpInv resend head d := by
  obtain ⟨reused, hpx⟩ := hs.px
  obtain ⟨fd, r, hconns⟩ := hs.conns
  obtain ⟨hd, hacc⟩ := exists_head_of_accept hw.parsed
  have hle := hacc.headerBytes_le
  have hreq := hs.req
  have hin := hs.input
  have hci := hs.clientIn
  have hneed : d.need = World.bodyNeed w.hc := by
    unfold Relay.need World.bodyNeed
    rw [hreq]
  have hhave := bodyHave_le_need w.hc
  have hoff : d.px.bodyOff = w.hc.req.headerBytes := by rw [hpx]; rfl
  have hend : d.px.bodyEnd = w.hc.req.headerBytes + World.bodyHave w.hc := by rw [hpx]; rfl
  have hleft : d.px.bodyLeft = World.bodyNeed w.hc - World.bodyHave w.hc := by
    rw [hpx]
    exact sub32_eq hhave
  refine ⟨hs.bounds hw, ⟨?_, ?_, ?_, ?_, ?_, Or.inl hci⟩, [], [], ?_, nofun, ?_⟩
  · rw [hreq, hoff]
  · rw [hoff, hend]
    exact Nat.le_add_right _ _
  · rw [hreq, hin]
    exact hle
  · rw [hend, hreq, hin, hneed, bodyHave_eq]
  · rw [hleft, hend, hreq, hci, hneed]
    simp only [List.length_nil]
    omega
  · unfold Relay.sent
    rw [hconns]
    rfl
  · have hphase : d.px.phase = .sendReq := by rw [hpx]; rfl
    unfold UpPhase
    rw [hphase]
    refine ⟨by rw [hpx]; rfl, by rw [hpx]; rfl, by rw [hpx]; rfl, Or.inl ⟨?_, hci⟩⟩
    rw [hoff, hreq]

end Invariant

/-! ## Runs -/

/-- The request owed to the upstream, as far as the client stream was read. -/
def owedBody (w : World) (clientIn : List UInt8) : List UInt8 :=
  (w.hc.buf.drop w.hc.req.headerBytes ++ clientIn).take (World.bodyNeed w.hc)

/-- The offsets of a slot are within their buffers. -/
structure Offsets (w : World) : Prop where
  hdr_off : w.px.hdrOff ≤ w.px.hdr.length
  hdr_len : w.px.hdr.length ≤ PROXY_HDR_MAX
  buf_off : w.px.bufOff ≤ w.px.buf.length
  buf_len : w.px.buf.length ≤ PROXY_BUF_MAX
  body_off : w.px.bodyOff ≤ w.px.bodyEnd
  body_end : w.px.bodyEnd ≤ w.hc.used

/-- The offsets of a bounded relay do not wrap. -/
theorem Bounds.offsets {w : World} (hb : Bounds w.relay) : Offsets w :=
  ⟨hb.hdr_off, hb.hdr_len, hb.buf_off, hb.buf_len, hb.body_off, hb.body_end⟩

/-- No move changes the body owed, nor how much of it is needed. -/
theorem Starts.owedBody_eq {w : World} {head : List UInt8} {d₀ d : Relay} {resend : Prop}
    (hs : Starts w head d₀) (hm : Moves resend d₀ d) :
    d.body = owedBody w d.clientIn ∧ d.need = World.bodyNeed w.hc := by
  obtain ⟨-, -, hreq, hin⟩ := hm.frame
  have hneed : d.need = World.bodyNeed w.hc := by
    unfold Relay.need World.bodyNeed
    rw [hreq, hs.req]
  unfold Relay.body Relay.stream owedBody
  rw [hneed, hin, hreq, hs.input, hs.req]
  exact ⟨rfl, rfl⟩

/-- The connections at the end of an exchange were sent nothing more. -/
theorem sent_of_connsLeft {d : Relay} {left : List UpstreamConn} (h : ConnsLeft d left) :
    ∀ c ∈ left, c.sent = [] ∨ ∃ c' ∈ d.conns, c.sent = c'.sent := by
  intro c hc
  rcases h with rfl | ⟨-, fd, rfl⟩ | ⟨bytes, rfl⟩
  · exact Or.inr ⟨c, hc, rfl⟩
  · rcases List.mem_cons.1 hc with rfl | hc
    · exact Or.inl rfl
    · exact Or.inr ⟨c, hc, rfl⟩
  · cases hd : d.conns with
    | nil =>
        rw [hd] at hc
        cases hc
    | cons c₀ cs =>
        rw [hd] at hc
        rcases List.mem_cons.1 hc with rfl | hc
        · exact Or.inr ⟨c₀, List.mem_cons_self, rfl⟩
        · exact Or.inr ⟨c, List.mem_cons_of_mem _ hc, rfl⟩

/-- Every connection was sent a prefix of the owed request. -/
theorem UpInv.sent_prefix {resend : Prop} {head : List UInt8} {d : Relay}
    (hi : UpInv resend head d) : ∀ c ∈ d.conns, c.sent <+: head ++ d.body := by
  obtain ⟨s, ss, hs, hold, hp⟩ := hi.conns
  have hmem : ∀ o ∈ d.sent, o <+: head ++ d.body := by
    intro o ho
    rw [hs] at ho
    rcases List.mem_cons.1 ho with rfl | ho
    · unfold UpPhase at hp
      cases hphase : d.px.phase with
      | none => rw [hphase] at hp; exact hp.elim
      | sendReq =>
          rw [hphase] at hp
          rw [hp.2.2.1]
          exact (List.take_prefix _ _).trans (List.prefix_append _ _)
      | sendBody =>
          rw [hphase] at hp
          have h1 : o <+: head ++ d.taken := ⟨_, hp.2⟩
          exact h1.trans ((List.prefix_append_right_inj head).2 hi.body.taken_prefix)
      | recvHdr => rw [hphase] at hp; exact hp.2.2.1
      | sendResp => rw [hphase] at hp; exact hp
      | stream => rw [hphase] at hp; exact hp
    · exact hold o ho
  exact fun c hc => hmem c.sent (List.mem_map_of_mem hc)

/-- Each upstream connection was sent a prefix of the request owed to it, the client
was not read past the declared body, and the offsets, once `proxy_begin` has set
them, are within their buffers. -/
structure UpstreamOk (w : World) (x : Exchange) : Prop where
  sent : ∀ c ∈ x.world.kernel.wire.conns, ∃ head,
    rewriteRequest (w.hc.buf.take w.hc.req.headerBytes) = some head ∧
      c.sent <+: head ++ owedBody w x.world.kernel.wire.clientIn
  read : World.bodyHave w.hc + x.world.kernel.wire.clientIn.length ≤ World.bodyNeed w.hc
  offsets : x.world.px = w.px ∨ Offsets x.world
  wrapped : x.world.wrapped = false

/-- What an upstream is sent is part of the request, in every state of every run. -/
theorem upstream_sent_prefix {w : World} (hw : Begins w) (addr : List UInt8) (len now : Nat)
    (as : List Action) :
    ∀ x ∈ runStates Exchange.step (beginExchange w addr len now) as, UpstreamOk w x := by
  intro x hx
  rcases trace_of_mem_all hw x hx with hr | ⟨head, d₀, hs, ht⟩
  · refine ⟨?_, ?_, hr.px.imp_right Bounds.offsets, hr.wrapped⟩
    · rw [hr.conns]
      exact nofun
    · rw [hr.clientIn]
      exact bodyHave_le_need w.hc
  · have hread : ∀ d, Moves True d₀ d →
        World.bodyHave w.hc + d.clientIn.length ≤ World.bodyNeed w.hc := by
      intro d hm
      have hi := (hs.upInv hw).moves hm
      have hle := hi.body.read_le
      have hend := hi.body.bodyEnd
      obtain ⟨-, hneed⟩ := hs.owedBody_eq hm
      obtain ⟨-, -, hreq, hin⟩ := hm.frame
      rw [hreq, hin, hs.req, hs.input, hneed, ← bodyHave_eq] at hend
      rw [hend, hreq, hs.req, hneed, Nat.add_sub_cancel_left] at hle
      exact hle
    cases ht with
    | live hm _ =>
        have hi := (hs.upInv hw).moves hm
        obtain ⟨hbody, -⟩ := hs.owedBody_eq hm
        refine ⟨fun c hc => ⟨head, hs.head_eq, ?_⟩, hread _ hm, Or.inr hi.bounds.offsets,
          hi.bounds.wrapped⟩
        have h := hi.sent_prefix c hc
        rw [hbody] at h
        exact h
    | «over» d hm ho =>
        have hi := (hs.upInv hw).moves hm
        obtain ⟨hbody, -⟩ := hs.owedBody_eq hm
        refine ⟨fun c hc => ⟨head, hs.head_eq, ?_⟩, ?_, Or.inr ho.bounds.offsets,
          ho.bounds.wrapped⟩
        · rw [ho.clientIn, ← hbody]
          rcases sent_of_connsLeft ho.conns c hc with h | ⟨c', hc', h⟩
          · rw [h]
            exact List.nil_prefix
          · rw [h]
            exact hi.sent_prefix c' hc'
        · rw [ho.clientIn]
          exact hread d hm

/-- A GET with a body on an idle socket that the upstream has closed. -/
def closedIdleSlot : World :=
  readySlot (cstr "GET / HTTP/1.0\r\nContent-Length: 1\r\n\r\nx") [⟨5, 1, [1]⟩]
    { Schedule.quiet with
      upstreamSends := [.sent 99, .sent 99, .sent 99]
      upstreamReads := [.data []]
      sockets := [some 9]
      connects := [.connected] }

/-- The request goes out twice, the second time without its body. -/
theorem upstream_sent_prefix_resent :
    Begins closedIdleSlot ∧
      ∃ x ∈ runStates Exchange.step (beginExchange closedIdleSlot [1] 1 0) (List.replicate 5 .turn),
        x.world.kernel.wire.conns.map (fun c => c.sent.length) = [61, 62] ∧
          UpstreamOk closedIdleSlot x := by
  have hbegins : Begins closedIdleSlot := readySlot_begins (by decide)
  obtain ⟨x, hx, hlens⟩ := exists_of_run
    (p := fun x : Exchange => x.world.kernel.wire.conns.map (fun c => c.sent.length) = [61, 62])
    (show (runTo Exchange.step (beginExchange closedIdleSlot [1] 1 0)
      (List.replicate 5 .turn)).any _ = true by decide +kernel)
  exact ⟨hbegins, x, hx, hlens,
    upstream_sent_prefix hbegins [1] 1 0 (List.replicate 5 .turn) x hx⟩

/-! ## Before the response -/

/-- In `PX_RECV_HDR` the whole request is out on the current connection. -/
def RequestSent (w : World) (x : Exchange) : Prop :=
  x.world.px.fd ≠ none → x.world.px.phase = .recvHdr →
    ∃ head c cs, rewriteRequest (w.hc.buf.take w.hc.req.headerBytes) = some head ∧
      x.world.kernel.wire.conns = c :: cs ∧
      c.sent = head ++ owedBody w x.world.kernel.wire.clientIn ∧
      (owedBody w x.world.kernel.wire.clientIn).length = World.bodyNeed w.hc

/-- In a run that never sends a request again without its body, the whole request is
out whenever a response is awaited. -/
theorem recvHdr_requestSent {w : World} (hw : Begins w) (addr : List UInt8) (len now : Nat)
    (as : List Action)
    (hgood : AllSteps Exchange.step (fun x a => ¬ x.LosesBody a) (beginExchange w addr len now) as) :
    ∀ x ∈ runStates Exchange.step (beginExchange w addr len now) as, RequestSent w x := by
  intro x hx hfd hphase
  rcases trace_of_mem False hw hgood x hx with hr | ⟨head, d₀, hs, ht⟩
  · exact absurd hr.fd hfd
  cases ht with
  | «over» d hm ho => exact absurd ho.fd hfd
  | live hm _ =>
      have hi := (hs.upInv hw).moves hm
      obtain ⟨s, ss, hsent, -, hp⟩ := hi.conns
      obtain ⟨hbody, hneed⟩ := hs.owedBody_eq hm
      have hph : x.world.relay.px.phase = .recvHdr := hphase
      unfold UpPhase at hp
      rw [hph] at hp
      obtain ⟨-, hnone, -, hall⟩ := hp
      have heq : s = head ++ x.world.relay.body := hall.resolve_right id
      have hlen := (hi.body.taken_eq hnone).2
      have hb : x.world.relay.body = owedBody w x.world.kernel.wire.clientIn := hbody
      rw [hb] at heq hlen
      cases hc : x.world.kernel.wire.conns with
      | nil =>
          have : x.world.relay.sent = [] := congrArg (List.map UpstreamConn.sent) hc
          rw [hsent] at this
          cases this
      | cons c cs =>
          have hcs : x.world.relay.sent = c.sent :: cs.map (·.sent) :=
            congrArg (List.map UpstreamConn.sent) hc
          rw [hsent] at hcs
          injection hcs with h1 h2
          exact ⟨head, c, cs, hs.head_eq, rfl, h1.symm.trans heq, hlen.trans hneed⟩

/-- A POST whose body comes in two pieces, on an idle socket that takes nothing. -/
def brokenIdleSlot : World :=
  readySlot (cstr "POST / HTTP/1.0\r\nContent-Length: 5\r\n\r\nhel") [⟨5, 1, [1]⟩]
    { Schedule.quiet with
      clientReads := [.data (cstr "lo")]
      upstreamSends := [.error, .sent 99, .sent 2, .sent 1, .sent 99]
      sockets := [some 9]
      connects := [.connected] }

/-- It is sent on a new connection, and its response is awaited there. -/
theorem recvHdr_requestSent_reopened :
    Begins brokenIdleSlot ∧
      ∃ x ∈ runStates Exchange.step (beginExchange brokenIdleSlot [1] 1 0) (List.replicate 6 .turn),
        (x.world.px.fd = some 9 ∧ x.world.px.phase = .recvHdr) ∧
          x.world.kernel.wire.conns.map (fun c => c.sent.length) = [67, 0] ∧
          RequestSent brokenIdleSlot x := by
  have hbegins : Begins brokenIdleSlot := readySlot_begins (by decide)
  obtain ⟨x, hx, hphase, hlens⟩ := exists_of_run
    (p := fun x : Exchange => (x.world.px.fd = some 9 ∧ x.world.px.phase = .recvHdr) ∧
      x.world.kernel.wire.conns.map (fun c => c.sent.length) = [67, 0])
    (show (runTo Exchange.step (beginExchange brokenIdleSlot [1] 1 0)
      (List.replicate 6 .turn)).any _ = true by decide +kernel)
  exact ⟨hbegins, x, hx, hphase, hlens,
    recvHdr_requestSent hbegins [1] 1 0 (List.replicate 6 .turn) (by decide +kernel) x hx⟩

/-- The request is sent again from its head alone: `proxy_retry_idle` does not take
the body back. -/
theorem recvHdr_request_lost :
    Begins closedIdleSlot ∧
      ∃ x ∈ runStates Exchange.step (beginExchange closedIdleSlot [1] 1 0)
        (List.replicate 5 .turn), ¬ RequestSent closedIdleSlot x := by
  refine ⟨readySlot_begins (by decide), ?_⟩
  have h : (runTo Exchange.step (beginExchange closedIdleSlot [1] 1 0)
      (List.replicate 5 .turn)).map (fun x => (x.world.px.fd, x.world.px.phase,
        x.world.kernel.wire.clientIn, x.world.kernel.wire.conns.map (·.sent.length))) =
      some (some 9, .recvHdr, [], [61, 62]) := by
    decide
  obtain ⟨x, hx, heq⟩ := Option.map_eq_some_iff.1 h
  simp only [Prod.mk.injEq] at heq
  obtain ⟨hfd, hphase, hin, hlens⟩ := heq
  refine ⟨x, runTo_mem hx, fun hsent => ?_⟩
  obtain ⟨head, c, cs, hhead, hconns, hall, -⟩ := hsent (by rw [hfd]; nofun) hphase
  have hhlen : head.length = 61 := by
    have hr : (rewriteRequest (closedIdleSlot.hc.buf.take closedIdleSlot.hc.req.headerBytes)).map
        List.length = some 61 := by
      decide
    rw [hhead] at hr
    exact Option.some.inj hr
  have hclen : c.sent.length = 61 := by
    rw [hconns] at hlens
    exact (List.cons.inj hlens).1
  have hbody : (owedBody closedIdleSlot []).length = 1 := by decide
  rw [hin] at hall
  have := congrArg List.length hall
  rw [List.length_append] at this
  omega

end TinyServer.Proxy
