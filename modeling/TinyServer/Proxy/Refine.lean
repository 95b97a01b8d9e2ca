import TinyServer.Proxy.Relay

/-!
# The pump makes relay moves

Every turn of `proxy_pump` is a sequence of relay moves (`pumpTurn_refines`). What
the turn leaves agrees with the relay state reached: exactly, when the exchange
goes on or is done, and up to the slot's proxy state, which is about to be reset,
when it fails or is closed.
-/

set_option autoImplicit false

namespace TinyServer.Proxy

open TinyServer.Http TinyServer.Net

/-! ## What does not change the relay -/

namespace World

@[simp] theorem touch_relay (w : World) (now : Nat) : (w.touch now).relay = w.relay := rfl

@[simp] theorem moved_relay (w : World) (now n : Nat) : (w.moved now n).relay = w.relay := by
  unfold moved
  split <;> rfl

@[simp] theorem moved_px (w : World) (now n : Nat) : (w.moved now n).px = w.px := by
  unfold moved
  split <;> rfl

@[simp] theorem moved_kernel (w : World) (now n : Nat) : (w.moved now n).kernel = w.kernel := by
  unfold moved
  split <;> rfl

@[simp] theorem corkUp_relay (w : World) (on : Bool) : (w.corkUp on).relay = w.relay := by
  unfold corkUp
  split
  · rfl
  split
  · rfl
  · simp only
    split <;> rfl

@[simp] theorem corkClient_relay (w : World) (on : Bool) :
    (w.corkClient on).relay = w.relay := by
  unfold corkClient
  split
  · rfl
  split
  · rfl
  · simp only
    split <;> rfl

@[simp] theorem corkClient_px (w : World) (on : Bool) : (w.corkClient on).px = w.px := by
  unfold corkClient
  split
  · rfl
  split
  · rfl
  · simp only
    split <;> rfl

@[simp] theorem armUp_relay (w : World) (io : HttpIo) : (w.armUp io).2.relay = w.relay := by
  unfold armUp
  split
  · rfl
  split
  · rfl
  · simp only
    split <;> split <;> rfl

/-- A control call leaves the bytes on the wire as they were. -/
theorem detach_eq (w : World) (fd : Nat) : ∃ sched calls, w.detach fd =
    { w with kernel := ⟨sched, { w.kernel.wire with calls := calls }⟩ } := by
  unfold detach
  simp only
  split <;> split <;> exact ⟨_, _, rfl⟩

theorem dropUpstream_relay (w : World) : w.dropUpstream.relay = { w.relay with
    up := false
    px := { w.relay.px with
      hdrOff := 0
      flags := { w.relay.px.flags with reused := false } } } := by
  unfold dropUpstream
  split
  · rfl
  · rename_i fd _
    obtain ⟨sched, calls, he⟩ := w.detach_eq fd
    simp only [he]
    rfl

/-- The relay after `proxy_reopen`: the old connection is gone, and a new one may
have been opened. -/
theorem proxyReopen_relay (w : World) : ∃ conns up, w.proxyReopen.2.relay = { w.relay with
      up := up
      px := { w.relay.px with
        hdrOff := 0
        flags := { w.relay.px.flags with reused := false } }
      conns := conns } ∧
    (conns = w.relay.conns ∨ ∃ fd, conns = ⟨fd, false, [], [], false⟩ :: w.relay.conns) ∧
    (w.proxyReopen.1 = true →
      up = true ∧ ∃ fd, conns = ⟨fd, false, [], [], false⟩ :: w.relay.conns) := by
  have hdrop := w.dropUpstream_relay
  unfold proxyReopen
  simp only
  split
  · refine ⟨w.relay.conns, false, ?_, Or.inl rfl, nofun⟩
    exact hdrop
  · rename_i fd _
    refine ⟨⟨fd, false, [], [], false⟩ :: w.relay.conns, true, ?_, Or.inr ⟨fd, rfl⟩,
      fun _ => ⟨rfl, fd, rfl⟩⟩
    have hbody : ∀ v : World, (if v.hasBody = true then v.corkUp true else v).relay = v.relay := by
      intro v
      split
      · exact v.corkUp_relay true
      · rfl
    have hconns : w.dropUpstream.kernel.wire.conns = w.relay.conns := congrArg Relay.conns hdrop
    calc _ = _ := hbody _
      _ = { w.dropUpstream.relay with
            up := true
            conns := ⟨fd, false, [], [], false⟩ :: w.dropUpstream.kernel.wire.conns } := rfl
      _ = _ := by rw [hdrop, hconns]

end World

/-- `note_body` does not look at what the relay leaves out. -/
theorem noteBody_core (px : ProxyConn) (n : Nat) :
    noteBody px.core n = (noteBody px n).map ProxyConn.core := by
  have hdone : px.core.flags.bodyDone = px.flags.bodyDone := rfl
  have hch : px.core.flags.respChunked = px.flags.respChunked := rfl
  have hcl : px.core.flags.respCl = px.flags.respCl := rfl
  have hchunk : px.core.chunk = px.chunk := rfl
  have hbuf : px.core.buf = px.buf := rfl
  unfold noteBody
  rw [hdone, hch, hcl, hchunk, hbuf]
  by_cases h1 : n = 0 ∨ px.flags.bodyDone = true
  · rw [if_pos h1, if_pos h1]
    rfl
  rw [if_neg h1, if_neg h1]
  by_cases h2 : px.flags.respChunked = true
  · rw [if_pos h2, if_pos h2]
    simp only
    by_cases h3 : (chunkFeed px.chunk (px.buf.drop (sub32 px.buf.length n))).2.1 = .bad
    · rw [if_pos h3, if_pos h3]
      rfl
    · rw [if_neg h3, if_neg h3]
      rfl
  rw [if_neg h2, if_neg h2]
  by_cases h3 : px.flags.respCl = true
  · rw [if_pos h3, if_pos h3]
    rfl
  · rw [if_neg h3, if_neg h3]
    rfl

/-- A result of `rewrite_response` for the part of the slot the relay shows. -/
def RewriteResult.core : RewriteResult → RewriteResult
  | .bad => .bad
  | .skip => .skip
  | .final px => .final px.core

/-- Nor does the end of a response head. -/
theorem finishResponse_core (req : HttpRequest) (px : ProxyConn) (code : Nat) (http10 : Bool)
    (acc : ResponseLines) :
    finishResponse req px.core code http10 acc =
      (finishResponse req px code http10 acc).core := by
  have hkeep : px.core.flags.clientKeep = px.flags.clientKeep := rfl
  have hclose : px.core.flags.upClose = px.flags.upClose := rfl
  unfold finishResponse
  split
  · rfl
  · simp only [hkeep, hclose]
    split
    · rfl
    · rfl

/-- Nor does `rewrite_response`. -/
theorem rewriteResponse_core (req : HttpRequest) (px : ProxyConn) (src : List UInt8) :
    rewriteResponse req px.core src = (rewriteResponse req px src).core := by
  unfold rewriteResponse
  split
  · rfl
  split
  · rfl
  split
  · split <;> rfl
  split
  · rfl
  split
  · rfl
  · exact finishResponse_core req px _ _ _

/-! ## What a turn leaves -/

/-- A reused socket is given up for a new one: before a byte of the request went out
on it, or while a response to a request without side effects is awaited. -/
def Reconnects (d : Relay) : Prop :=
  d.px.flags.reused = true ∧
    ((d.px.phase = .sendReq ∧ d.px.hdrOff = 0) ∨
      (d.px.phase = .recvHdr ∧ (d.req.method = .get ∨ d.req.method = .head)))

/-- The connections at the end of an exchange: before a response a last reconnect may
have added one, and a last read may have brought bytes that break the framing. -/
def ConnsLeft (d : Relay) (left : List UpstreamConn) : Prop :=
  left = d.conns ∨
    (Reconnects d ∧ ∃ fd, left = ⟨fd, false, [], [], false⟩ :: d.conns) ∨
    ∃ bytes, left = onNewest d.conns fun c => { c with received := c.received ++ bytes }

/-- What the end of an exchange leaves, before the slot's proxy state is reset. -/
structure Left (d : Relay) (w : World) : Prop where
  clientPhase : w.hc.phase = d.clientPhase
  req : w.hc.req = d.req
  input : w.hc.buf = d.input
  clientIn : w.kernel.wire.clientIn = d.clientIn
  clientOut : w.kernel.wire.clientOut = d.clientOut
  conns : ConnsLeft d w.kernel.wire.conns
  bounds : Bounds w.relay

theorem Left.of_relay {w : World} {d : Relay} (h : w.relay = d) (hb : Bounds d) : Left d w := by
  subst h
  exact ⟨rfl, rfl, rfl, rfl, rfl, Or.inl rfl, hb⟩

/-- The newest connection has been closed by the upstream. -/
def UpstreamClosed (conns : List UpstreamConn) : Prop := ∀ c ∈ conns.head?, c.eof = true

/-- The whole response went out. -/
structure Finished (d : Relay) : Prop where
  send100 : d.px.flags.send100 = false
  phase : d.px.phase = .stream ∨ (d.px.phase = .sendResp ∧ d.px.hdr.length ≤ d.px.hdrOff)
  buf : d.px.buf.length ≤ d.px.bufOff
  frame : d.px.flags.bodyDone = true ∨
    (d.px.flags.respEof = true ∧ UpstreamClosed d.conns)

/-- What a turn leaves, for the relay state `d` it reached. -/
def Agrees (d : Relay) (r : World × Exit) : Prop :=
  match r.2 with
  | .again _ => r.1.relay = d
  | .yield _ io => r.1.relay = d ∧ io.yields = true
  | .ret io => r.1.relay = d ∧ io.yields = true
  | .close => Left d r.1
  | .fail => Left d r.1 ∧ r.1.px.flags.respSent = d.px.flags.respSent
  | .done => r.1.relay = d ∧ Finished d

/-- The turn is a sequence of moves. -/
def Refines (resend : Prop) (w : World) (r : World × Exit) : Prop := ∃ d, Moves resend w.relay d ∧ Agrees d r

/-- A turn after some moves. -/
theorem Refines.of_moves {resend : Prop} {w v : World} {r : World × Exit} (h : Moves resend w.relay v.relay)
    (hr : Refines resend v r) : Refines resend w r := by
  obtain ⟨d, hm, ha⟩ := hr
  exact ⟨d, h.trans hm, ha⟩

theorem Refines.again {resend : Prop} {w : World} {b : Nat} : Refines resend w (w, .again b) := ⟨_, .refl, rfl⟩

theorem Refines.yield {resend : Prop} {w : World} {u c : HttpIo} (h : c.yields = true) :
    Refines resend w (w, .yield u c) := ⟨_, .refl, rfl, h⟩

theorem Refines.ret {resend : Prop} {w : World} {io : HttpIo} (h : io.yields = true) : Refines resend w (w, .ret io) :=
  ⟨_, .refl, rfl, h⟩

theorem Refines.fail {resend : Prop} {w : World} (hb : Bounds w.relay) : Refines resend w (w, .fail) :=
  ⟨_, .refl, .of_relay rfl hb, rfl⟩

theorem Refines.close {resend : Prop} {w : World} (hb : Bounds w.relay) : Refines resend w (w, .close) :=
  ⟨_, .refl, .of_relay rfl hb⟩

theorem Refines.done {resend : Prop} {w : World} (h : Finished w.relay) : Refines resend w (w, .done) :=
  ⟨_, .refl, rfl, h⟩

/-! ## The phases -/

section Turns

variable {resend : Prop} {w : World} {now b : Nat}

/-- The bytes a loop of sends takes are bytes it was offered. -/
theorem send_le (k : Kernel) (e : End) (data : List UInt8) : (k.send e data).1 ≤ data.length :=
  sendLoop_le _ _

theorem send_done (k : Kernel) (e : End) (data : List UInt8) :
    (k.send e data).2.1 = .done ↔ (k.send e data).1 = data.length :=
  sendLoop_done_iff _ _

/-- The end of `PX_SEND_REQ` is a move. -/
theorem sendReqNext_refines (hphase : w.px.phase = .sendReq)
    (hout : w.px.hdr.length ≤ w.px.hdrOff) : Refines resend w (w.sendReqNext b) := by
  unfold World.sendReqNext
  have hbody : w.hasBody = true ↔ w.relay.HasBody := by
    unfold World.hasBody Relay.HasBody
    rw [Bool.or_eq_true, decide_eq_true_iff, decide_eq_true_iff]
    rfl
  split
  · rename_i h
    exact ⟨_, .single (.toSendBody w.relay hphase hout (hbody.1 h)), rfl⟩
  · rename_i h
    refine ⟨_, .single (.headSent w.relay hphase hout (mt hbody.2 h)), ?_⟩
    have hc := w.corkUp_relay false
    have e : w.relay.toRecvHdr = (w.corkUp false).relay.toRecvHdr := by rw [hc]
    rw [e]
    rfl

/-- A failed reconnect ends the exchange. -/
theorem reopenFail_refines (hb : Bounds w.relay) (hre : Reconnects w.relay) :
    Refines resend w (w.proxyReopen.2, .fail) := by
  obtain ⟨conns, up, hrel, hcs, -⟩ := w.proxyReopen_relay
  refine ⟨_, .refl, ?_, ?_⟩
  · refine ⟨congrArg Relay.clientPhase hrel, congrArg Relay.req hrel,
      congrArg Relay.input hrel, congrArg Relay.clientIn hrel, congrArg Relay.clientOut hrel, ?_, ?_⟩
    · have hc : w.proxyReopen.2.kernel.wire.conns = conns := congrArg Relay.conns hrel
      rw [hc]
      exact hcs.imp_right fun h => Or.inl ⟨hre, h⟩
    · rw [hrel]
      exact ⟨Nat.zero_le _, hb.hdr_len, hb.buf_off, hb.buf_len, hb.body_off, hb.body_end,
        hb.body_left, hb.chunk, hb.wrapped⟩
  · have hp : w.proxyReopen.2.px.core = _ := congrArg Relay.px hrel
    have hs := congrArg (fun p : ProxyConn => p.flags.respSent) hp
    exact hs

/-- A turn of `PX_SEND_REQ` makes moves. -/
theorem sendReqTurn_refines (hb : Bounds w.relay) (hphase : w.px.phase = .sendReq) :
    Refines resend w (w.sendReqTurn now b) := by
  unfold World.sendReqTurn
  split
  · rename_i hlt
    set r := w.kernel.send .upstream (w.px.hdr.drop w.px.hdrOff) with hr
    have hn : r.1 ≤ w.px.hdr.length - w.px.hdrOff := by
      have := send_le w.kernel .upstream (w.px.hdr.drop w.px.hdrOff)
      rwa [List.length_drop] at this
    set w₁ : World := { w with
      kernel := r.2.2
      px := { w.px with hdrOff := w.px.hdrOff + r.1 } } with hw₁
    have hmove : Move resend w.relay w₁.relay := .sendHead w.relay r.1 hphase hn
    have hb₁ : Bounds w₁.relay := hmove.bounds hb
    refine Refines.of_moves (.single hmove) ?_
    simp only
    split
    · split
      · -- The reused socket took nothing: a new connection replaces it.
        rename_i hcond
        obtain ⟨hreused, hoff⟩ := hcond
        obtain ⟨conns, up, hrel, hcs, hok⟩ := w₁.proxyReopen_relay
        have hpx : ({ w₁.relay.px with
            hdrOff := 0
            flags := { w₁.relay.px.flags with reused := false } } : ProxyConn) =
            { w₁.relay.px with flags := { w₁.relay.px.flags with reused := false } } := by
          have h0 : w₁.relay.px.hdrOff = 0 := hoff
          rw [← h0]
        split
        · rename_i hq
          obtain ⟨rfl, fd, rfl⟩ := hok hq
          refine ⟨_, .single (.reopen w₁.relay fd hphase hreused hoff), ?_⟩
          show w₁.proxyReopen.2.relay = _
          rw [hrel, hpx]
        · exact reopenFail_refines hb₁ ⟨hreused, Or.inl ⟨hphase, hoff⟩⟩
      -- A fresh socket that fails ends the exchange.
      · exact Refines.fail hb₁
    -- A part of the head is sent: the pump waits for the upstream.
    · exact ⟨w₁.relay, .refl, w₁.moved_relay now r.1, rfl⟩
    · rename_i hdone
      have hall := (send_done _ _ _).1 hdone
      rw [List.length_drop] at hall
      have hout : w₁.px.hdr.length ≤ w₁.px.hdrOff := by
        show w.px.hdr.length ≤ w.px.hdrOff + r.1
        have : r.1 = w.px.hdr.length - w.px.hdrOff := hall
        omega
      have hm := w₁.moved_relay now r.1
      have hmp := w₁.moved_px now r.1
      refine Refines.of_moves (v := w₁.moved now r.1) (by rw [hm]) ?_
      refine sendReqNext_refines ?_ ?_
      · rw [hmp]
        exact hphase
      · rw [hmp]
        exact hout
  -- The head was sent before.
  · exact sendReqNext_refines hphase (by omega)

/-- `touch` and the budget do not concern the relay. -/
theorem Refines.of_moved (now n : Nat) {r : World × Exit}
    (h : Refines resend (w.moved now n) r) :
    Refines resend w r := by
  obtain ⟨d, hm, ha⟩ := h
  rw [w.moved_relay now n] at hm
  exact ⟨d, hm, ha⟩

/-- The end of `PX_SEND_BODY` is a move. -/
theorem bodySent_refines (hphase : w.px.phase = .sendBody) (hout : w.px.buf.length ≤ w.px.bufOff)
    (hbody : ¬ w.relay.HasBody) :
    Refines resend w ({ w.corkUp false with
      px := { (w.corkUp false).px with bufOff := 0, buf := [], phase := .recvHdr } },
        .again b) := by
  refine ⟨_, .single (.bodySent w.relay hphase hout hbody), ?_⟩
  have e : w.relay.toRecvHdr = (w.corkUp false).relay.toRecvHdr := by rw [w.corkUp_relay false]
  rw [e]
  rfl

/-- What a retried read gives fits the room. -/
theorem readThrough_got {k k' : Kernel} {e : End} {room : Nat} {bytes : List UInt8}
    (h : k.readThrough e room = (.got bytes, k')) : bytes.length ≤ room := by
  obtain ⟨rs, hrs⟩ := exists_readRetry (k.reads e) room
  have h1 : (readOnce rs room).1 = .got bytes := by
    rw [← hrs]
    exact congrArg Prod.fst h
  exact readOnce_got (Prod.ext h1 rfl : readOnce rs room = (_, (readOnce rs room).2))

theorem read_got {k k' : Kernel} {e : End} {room : Nat} {bytes : List UInt8}
    (h : k.read e room = (.got bytes, k')) : bytes.length ≤ room := by
  have h1 : (readOnce (k.reads e) room).1 = .got bytes := congrArg Prod.fst h
  exact readOnce_got (Prod.ext h1 rfl : readOnce (k.reads e) room = (_, (readOnce (k.reads e) room).2))

/-- A turn of `PX_SEND_BODY` makes moves. -/
theorem sendBodyTurn_refines (hb : Bounds w.relay) (hphase : w.px.phase = .sendBody) :
    Refines resend w (w.sendBodyTurn now b) := by
  unfold World.sendBodyTurn
  split
  · -- The shuttle buffer.
    set r := w.kernel.send .upstream (w.px.buf.drop w.px.bufOff)
    have hn : r.1 ≤ w.px.buf.length - w.px.bufOff := by
      have := send_le w.kernel .upstream (w.px.buf.drop w.px.bufOff)
      rwa [List.length_drop] at this
    set w₁ : World := { w with
      kernel := r.2.2
      px := { w.px with bufOff := w.px.bufOff + r.1 } }
    have hmove : Move resend w.relay w₁.relay := .sendShuttle w.relay r.1 hphase hn
    have hb₁ : Bounds w₁.relay := hmove.bounds hb
    refine Refines.of_moves (.single hmove) ?_
    simp only
    split
    -- The upstream socket is dead.
    · exact Refines.fail hb₁
    -- It took a part.
    · exact ⟨w₁.relay, .refl, w₁.moved_relay now r.1, rfl⟩
    · rename_i hdone
      have hall := (send_done _ _ _).1 hdone
      rw [List.length_drop] at hall
      have hout : w₁.px.buf.length ≤ w₁.px.bufOff := by
        show w.px.buf.length ≤ w.px.bufOff + r.1
        have : r.1 = w.px.buf.length - w.px.bufOff := hall
        omega
      refine Refines.of_moved now r.1 ?_
      refine ⟨_, .single (.drained (w₁.moved now r.1).relay (Or.inl ?_) ?_), rfl⟩
      · rw [w₁.moved_relay]
        exact hphase
      · rw [w₁.moved_relay]
        exact hout
  rename_i hbuf
  have hout : w.px.buf.length ≤ w.px.bufOff := by omega
  split
  · -- The part of the body in the header buffer.
    set r := w.kernel.send .upstream ((w.hc.buf.take w.px.bodyEnd).drop w.px.bodyOff)
    have hlen : ((w.hc.buf.take w.px.bodyEnd).drop w.px.bodyOff).length =
        w.px.bodyEnd - w.px.bodyOff := by
      have : w.px.bodyEnd ≤ w.hc.buf.length := hb.body_end
      rw [List.length_drop, List.length_take]
      omega
    have hn : r.1 ≤ w.px.bodyEnd - w.px.bodyOff := by
      rw [← hlen]
      exact send_le w.kernel .upstream _
    set w₁ : World := { w with
      kernel := r.2.2
      px := { w.px with bodyOff := w.px.bodyOff + r.1 } }
    have hmove : Move resend w.relay w₁.relay := .sendBuffered w.relay r.1 hphase hout hn
    have hb₁ : Bounds w₁.relay := hmove.bounds hb
    refine Refines.of_moves (.single hmove) ?_
    simp only
    split
    · exact Refines.fail hb₁
    · exact ⟨w₁.relay, .refl, w₁.moved_relay now r.1, rfl⟩
    · exact ⟨w₁.relay, .refl, w₁.moved_relay now r.1⟩
  rename_i hoff
  split
  · -- The part still on the client socket.
    rename_i hleft
    set r := w.kernel.readThrough .client (min PROXY_BUF_MAX w.px.bodyLeft) with hr
    simp only
    split
    · rename_i bytes hgot
      have hlen : bytes.length ≤ min PROXY_BUF_MAX w.px.bodyLeft :=
        readThrough_got (k := w.kernel) (e := .client) (Prod.ext hgot rfl : r = (_, r.2))
      have hle : bytes.length ≤ w.px.bodyLeft := hlen.trans (Nat.min_le_right _ _)
      refine ⟨_, .single (.readBody w.relay bytes hphase hout (Nat.not_lt.1 hoff) hlen), ?_⟩
      have hwrap : (w.wrapped || decide (w.px.bodyLeft < bytes.length)) = w.wrapped := by
        rw [decide_eq_false (by omega), Bool.or_false]
      have hin : r.2.wire = { w.kernel.wire with clientIn := w.kernel.wire.clientIn ++ bytes } := by
        have : r.2 = ((w.kernel.setReads .client _).recordRead .client r.1) := rfl
        rw [this, hgot]
        rfl
      show World.relay _ = _
      unfold World.relay World.touch
      simp only [hwrap, hin, sub32_eq hle]
      rfl
    -- The client closed its side before the body was complete.
    · rename_i hgot
      refine ⟨_, .single (.drained w.relay (Or.inl hphase) hout), ?_⟩
      have hin : r.2.wire = w.kernel.wire := by
        have : r.2 = ((w.kernel.setReads .client _).recordRead .client r.1) := rfl
        rw [this, hgot]
        rfl
      refine ⟨?_, rfl⟩
      show World.relay _ = _
      unfold World.relay
      simp only [hin]
      rfl
    -- Nothing to read yet: the pump waits for the client.
    · rename_i hnot hnot'
      have hm : Move resend w.relay _ := .drained w.relay (Or.inl hphase) hout
      refine ⟨_, .single hm, ?_⟩
      have hin : r.2.wire = w.kernel.wire := by
        have : r.2 = ((w.kernel.setReads .client _).recordRead .client r.1) := rfl
        rw [this]
        cases hc : r.1 with
        | got bytes => exact absurd hc (hnot bytes)
        | eof => rfl
        | interrupted => rfl
        | wouldBlock => rfl
        | error => rfl
      refine Left.of_relay ?_ (hm.bounds hb)
      unfold World.relay
      simp only [hin]
      rfl
  -- Nothing is left of the body.
  · rename_i hleft
    refine bodySent_refines hphase hout ?_
    rintro (h | h)
    · exact hoff h
    · exact hleft h

/-- `proxy_retry_idle` is about to send a request again without its body: the reused
socket failed, and a new one is there. -/
def World.LosesBody (w : World) : Prop :=
  w.canRetryIdle = true ∧ 0 < World.bodyNeed w.hc ∧ w.proxyReopen.1 = true

instance (w : World) : Decidable w.LosesBody := inferInstanceAs (Decidable (_ ∧ _ ∧ _))

/-- A retry is a move. -/
theorem retryOrFail_refines (hb : Bounds w.relay) (hphase : w.px.phase = .recvHdr)
    (hres : w.LosesBody → resend) :
    Refines resend w (w.retryOrFail b) := by
  unfold World.retryOrFail
  split
  · rename_i hlen
    have hbuf : w.px.buf = [] := List.length_eq_zero_iff.1 hlen
    unfold World.proxyRetryIdle
    split
    · exact Refines.fail hb
    · rename_i hcan
      have hretry : w.canRetryIdle = true := by simpa using hcan
      have hcan' := hretry
      unfold World.canRetryIdle at hcan'
      simp only [Bool.and_eq_true, Bool.or_eq_true, beq_iff_eq, Bool.not_eq_true'] at hcan'
      obtain ⟨⟨⟨hreused, hsent⟩, -⟩, hmethod⟩ := hcan'
      obtain ⟨conns, up, hrel, hcs, hok⟩ := w.proxyReopen_relay
      cases hq : w.proxyReopen.1 with
      | false =>
          have hfail : Refines resend w _ :=
            reopenFail_refines hb ⟨hreused, Or.inr ⟨hphase, hmethod⟩⟩
          simpa only [hq, Bool.not_false, if_true, Bool.false_eq_true, if_false] using hfail
      | true =>
          obtain ⟨rfl, fd, rfl⟩ := hok hq
          have hbody : w.relay.need = 0 ∨ resend := by
            by_cases hneed : World.bodyNeed w.hc = 0
            · exact Or.inl hneed
            · exact Or.inr (hres ⟨hretry, Nat.pos_of_ne_zero hneed, hq⟩)
          refine ⟨_, .single (.retryIdle w.relay fd hphase hreused hsent hbuf hmethod hbody), ?_⟩
          have hset : World.relay { w.proxyReopen.2 with
              px := { w.proxyReopen.2.px with bufOff := 0, buf := [], phase := .sendReq } } =
            { w.proxyReopen.2.relay with
              px := { w.proxyReopen.2.relay.px with
                bufOff := 0
                buf := []
                phase := .sendReq } } := rfl
          have hbuf' : w.relay.px.buf = [] := hbuf
          simp only [hq, Bool.not_true, Bool.false_eq_true, if_false, if_true]
          show World.relay _ = _
          rw [hset, hrel]
          simp only [hbuf']
  · exact Refines.fail hb

/-- The offsets after a head stay in their buffers. -/
theorem headLeft_bounds {px : ProxyConn} {rest : List UInt8} (hb : Bounds w.relay)
    (hf : HeadFrame w.px px) (hrest : rest.length ≤ PROXY_BUF_MAX) :
    Bounds (World.relay { w with px := { px with buf := rest, bufOff := 0 } }) := by
  constructor
  case hdr_off => exact hf.hdrOff.trans_le (Nat.zero_le _)
  case hdr_len => exact hf.hdr_len
  case buf_off => exact Nat.zero_le _
  case buf_len => exact hrest
  case body_off =>
    show px.bodyOff ≤ px.bodyEnd
    rw [hf.bodyOff, hf.bodyEnd]
    exact hb.body_off
  case body_end =>
    show px.bodyEnd ≤ _
    rw [hf.bodyEnd]
    exact hb.body_end
  case body_left =>
    show px.bodyLeft < _
    rw [hf.bodyLeft]
    exact hb.body_left
  case chunk =>
    show px.chunk.Valid
    rw [hf.chunk]
    exact ChunkScan.start_valid
  case wrapped => exact hb.wrapped

/-- A head in the buffer is taken by a move. -/
theorem headTurn_refines {i : Nat} (hb : Bounds w.relay) (hphase : w.px.phase = .recvHdr)
    (hend : findHdrEnd w.px.buf = some i) : Refines resend w (w.headTurn b i) := by
  have hle := findHdrEnd_lt hend
  have hwrap : (w.wrapped || decide (w.px.buf.length < i + 4)) = w.wrapped := by
    rw [decide_eq_false (by omega), Bool.or_false]
  have hleft : sub32 w.px.buf.length (i + 4) = (w.px.buf.drop (i + 4)).length := by
    rw [sub32_eq hle, List.length_drop]
  have hrest : (w.px.buf.drop (i + 4)).length ≤ PROXY_BUF_MAX := by
    have : w.px.buf.length ≤ PROXY_BUF_MAX := hb.buf_len
    rw [List.length_drop]
    omega
  have hcore := rewriteResponse_core w.hc.req w.px (w.px.buf.take (i + 4))
  unfold World.headTurn
  simp only [hwrap, hleft]
  -- An interim head is skipped, a malformed one fails, any other is the head of the response.
  split
  · exact Refines.fail hb
  · rename_i hskip
    rw [hskip] at hcore
    exact ⟨_, .single (.skipHead w.relay i hphase hend hcore), rfl⟩
  · rename_i px hfinal
    rw [hfinal] at hcore
    have hf := rewriteResponse_frame hfinal
    split
    -- The head says that there is no body.
    · rename_i hdone
      refine ⟨_, .single (.finalHead w.relay _ i px.core hphase hend hcore
        (by unfold Relay.takeHead; exact if_pos hdone)), ?_⟩
      exact Relay.ext (congrArg Option.isSome hf.fd) rfl rfl rfl rfl rfl rfl rfl rfl
    · rename_i hdone
      set px₁ : ProxyConn := { px with buf := w.px.buf.drop (i + 4), bufOff := 0 } with hpx₁
      have hnote := noteBody_core px₁ (w.px.buf.drop (i + 4)).length
      have htake : w.relay.takeHead px.core (w.relay.px.buf.drop (i + 4)) =
          (noteBody px₁.core (w.px.buf.drop (i + 4)).length).map fun px =>
            { w.relay with px := { px with phase := .sendResp } } := by
        unfold Relay.takeHead
        exact if_neg hdone
      unfold World.noteBody
      cases hn : noteBody px₁ (w.px.buf.drop (i + 4)).length with
      | none =>
          -- The body is badly framed; only what the exchange leaves matters.
          refine ⟨_, .refl, ⟨rfl, rfl, rfl, rfl, rfl, Or.inl rfl, headLeft_bounds hb hf hrest⟩, ?_⟩
          have hsent := congrArg PxFlags.respSent hf.flags
          exact hsent
      -- What came with the head is accounted for as body.
      | some px₂ =>
          rw [hnote, hn] at htake
          refine ⟨_, .single (.finalHead w.relay _ i px.core hphase hend hcore htake), ?_⟩
          have hwrap₁ : (w.wrapped || decide (px₁.buf.length < (w.px.buf.drop (i + 4)).length)) =
              w.wrapped := by
            rw [decide_eq_false (Nat.lt_irrefl _), Bool.or_false]
          simp only [Option.map_some, hwrap₁]
          have hfd : px₂.fd = w.px.fd := (noteBody_frame hn).fd.trans hf.fd
          exact Relay.ext (congrArg Option.isSome hfd) rfl rfl rfl rfl rfl rfl rfl rfl

/-- What a read of the upstream does to the relay. -/
theorem read_relay (w : World) (room : Nat) :
    World.relay { w with kernel := (w.kernel.read .upstream room).2 } =
      match (w.kernel.read .upstream room).1 with
      | .got bytes => w.relay.recvUp bytes
      | .eof => { w.relay with conns := onNewest w.relay.conns fun c => { c with eof := true } }
      | _ => w.relay := by
  unfold Kernel.read
  simp only
  cases (readOnce (w.kernel.reads .upstream) room).1 with
  | got bytes => rfl
  | eof => rfl
  | interrupted => rfl
  | wouldBlock => rfl
  | error => rfl

/-- The next read of the upstream, in `PX_RECV_HDR` with an empty buffer, makes
`proxy_retry_idle` send a request again without its body. -/
def World.ReadLosesBody (w : World) : Prop :=
  let r := w.kernel.read .upstream PROXY_BUF_MAX
  w.px.phase = .recvHdr ∧ w.px.buf = [] ∧ (r.1 = .eof ∨ r.1 = .error) ∧
    World.LosesBody { w with kernel := r.2 }

instance (w : World) : Decidable w.ReadLosesBody := inferInstanceAs (Decidable (_ ∧ _ ∧ _ ∧ _))

/-- A turn of `PX_RECV_HDR` makes moves. -/
theorem recvHdrTurn_refines (hb : Bounds w.relay) (hphase : w.px.phase = .recvHdr)
    (hres : w.ReadLosesBody → resend) :
    Refines resend w (w.recvHdrTurn now b) := by
  unfold World.recvHdrTurn
  split
  · rename_i i hend
    exact headTurn_refines hb hphase hend
  split
  · exact Refines.fail hb
  rename_i hfull
  have hrel := read_relay w (PROXY_BUF_MAX - w.px.buf.length)
  set r := w.kernel.read .upstream (PROXY_BUF_MAX - w.px.buf.length) with hr
  set w₁ : World := { w with kernel := r.2 } with hw₁
  have hphase₁ : w₁.px.phase = .recvHdr := hphase
  -- A retry gives up a body only when the connection ends before a byte of the response.
  have hres₁ : r.1 = .eof ∨ r.1 = .error → w₁.LosesBody → resend := by
    intro hend hloses
    have hlen : w.px.buf.length = 0 := by
      have hcan : w₁.canRetryIdle = true := hloses.1
      unfold World.canRetryIdle at hcan
      simp only [Bool.and_eq_true, beq_iff_eq] at hcan
      exact hcan.1.2
    refine hres ⟨hphase, List.length_eq_zero_iff.1 hlen, ?_⟩
    simp only [hr, hlen, Nat.sub_zero] at hend hw₁
    rw [hw₁] at hloses
    exact ⟨hend, hloses⟩
  simp only
  cases hgot : r.1 with
  | interrupted =>
      rw [hgot] at hrel
      exact ⟨_, .refl, hrel⟩
  | wouldBlock =>
      rw [hgot] at hrel
      exact ⟨_, .refl, hrel, rfl⟩
  | error =>
      rw [hgot] at hrel
      have hb₁ : Bounds w₁.relay := by
        rw [hrel]
        exact hb
      exact Refines.of_moves (by rw [hrel]) (retryOrFail_refines hb₁ hphase₁ (hres₁ (Or.inr hgot)))
  | eof =>
      rw [hgot] at hrel
      have hm : Move resend w.relay w₁.relay := by
        rw [hrel]
        exact .upstreamEof w.relay (Or.inl hphase)
      exact Refines.of_moves (.single hm) 
        (retryOrFail_refines (hm.bounds hb) hphase₁ (hres₁ (Or.inl hgot)))
  | got bytes =>
      rw [hgot] at hrel
      have hlen : bytes.length ≤ PROXY_BUF_MAX - w.px.buf.length :=
        read_got (k := w.kernel) (e := .upstream) (Prod.ext hgot rfl : r = (_, r.2))
      set w₂ : World :=
        { w₁ with px := { w₁.px with buf := w₁.px.buf ++ bytes } }.touch now
      have hrel₂ : w₂.relay =
          { w₁.relay with px := { w₁.relay.px with buf := w₁.relay.px.buf ++ bytes } } := rfl
      have hm : Move resend w.relay w₂.relay := by
        rw [hrel₂, hrel]
        refine .readHead w.relay bytes hphase ?_
        show w.px.buf.length + bytes.length ≤ PROXY_BUF_MAX
        omega
      have hb₂ := hm.bounds hb
      refine Refines.of_moves (.single hm) ?_
      simp only
      split
      · rename_i i hend
        -- The head is complete now.
        exact headTurn_refines hb₂ hphase hend
      split
      -- The buffer is full without one.
      · exact Refines.fail hb₂
      · exact Refines.again

theorem clientDead_refines (hb : Bounds w.relay) : Refines resend w w.clientDead := by
  unfold World.clientDead
  split
  · exact Refines.close hb
  · exact Refines.fail hb

@[simp] theorem markSent_relay (w : World) (n : Nat) : (w.markSent n).relay =
    { w.relay with px := { w.relay.px with flags := { w.relay.px.flags with
      respSent := w.relay.px.flags.respSent || decide (n ≠ 0) } } } := by
  unfold World.markSent
  by_cases hn : n = 0
  · rw [if_pos hn, decide_eq_false (fun h => h hn)]
    simp only [Bool.or_false]
  · rw [if_neg hn, decide_eq_true hn]
    simp only [Bool.or_true]
    rfl

/-- A gathered send is a move. -/
theorem sendGatheredTurn_refines (hb : Bounds w.relay) (hphase : w.px.phase = .sendResp)
    (h100 : w.px.flags.send100 = false) (hdone : w.px.flags.bodyDone = true) :
    Refines resend w (w.sendGatheredTurn now b) := by
  unfold World.sendGatheredTurn
  simp only
  split
  -- Nothing is left to send.
  · rename_i hnil
    have hlen := congrArg List.length hnil
    rw [List.length_append, List.length_drop, List.length_drop] at hlen
    refine Refines.done ⟨h100, Or.inr ⟨hphase, ?_⟩, ?_, Or.inl hdone⟩
    · show w.px.hdr.length ≤ w.px.hdrOff
      exact Nat.sub_eq_zero_iff_le.1 (Nat.eq_zero_of_add_eq_zero hlen).1
    · show w.px.buf.length ≤ w.px.bufOff
      exact Nat.sub_eq_zero_iff_le.1 (Nat.eq_zero_of_add_eq_zero hlen).2
  set data := w.px.hdr.drop w.px.hdrOff ++ w.px.buf.drop w.px.bufOff with hdata
  set r := w.kernel.sendmsg .client data with hr
  have hn : r.1 ≤ data.length := sendOnce_le _ _
  have hpos : r.2.1 = .done ↔ 0 < r.1 := sendOnce_pos _ _
  have hwire : r.2.2.wire = { w.kernel.wire with
      clientOut := w.kernel.wire.clientOut ++ data.take r.1 } := rfl
  -- What did not succeed sent no byte.
  have hzero : ∀ o, r.2.1 = o → o ≠ .done → World.relay { w with kernel := r.2.2 } = w.relay := by
    intro o ho hne
    have h0 : r.1 = 0 := Nat.eq_zero_of_not_pos fun h => hne (ho ▸ hpos.2 h)
    unfold World.relay
    simp only [hwire, h0, List.take_zero, List.append_nil]
  cases hout : r.2.1 with
  | dead =>
      have hrel := hzero _ hout nofun
      refine Refines.of_moves (v := { w with kernel := r.2.2 }) (by rw [hrel]) ?_
      exact clientDead_refines (by rw [hrel]; exact hb)
  | wouldBlock => exact ⟨_, .refl, hzero _ hout nofun, rfl⟩
  | done =>
      have hpos' := hpos.1 hout
      set w₁ : World := { w with
        kernel := r.2.2
        px := { w.px with
          hdrOff := w.px.hdrOff + min r.1 (w.px.hdr.drop w.px.hdrOff).length
          bufOff := w.px.bufOff + (r.1 - (w.px.hdr.drop w.px.hdrOff).length) } } with hw₁
      have hm : Move resend w.relay ((w₁.markSent r.1).moved now r.1).relay := by
        have hsent : (w₁.relay.px.flags.respSent || decide (r.1 ≠ 0)) = true := by
          rw [decide_eq_true (Nat.pos_iff_ne_zero.1 hpos'), Bool.or_true]
        rw [World.moved_relay, markSent_relay, hsent]
        exact .sendGathered w.relay r.1 hphase h100 hdone hpos' hn
      refine Refines.of_moves (.single hm) ?_
      set w₂ := (w₁.markSent r.1).moved now r.1 with hw₂
      have hpx₂ : w₂.px.core = _ := congrArg Relay.px
        ((World.moved_relay _ now r.1).trans (markSent_relay w₁ r.1))
      simp only
      split
      -- There is more to send.
      · exact Refines.again
      -- All of it is sent.
      · rename_i hleft
        obtain ⟨hhdr, hbuf⟩ := not_or.1 hleft
        refine Refines.done ⟨?_, Or.inr ⟨?_, Nat.not_lt.1 hhdr⟩, Nat.not_lt.1 hbuf, Or.inl ?_⟩
        · show w₂.px.core.flags.send100 = false
          rw [hpx₂]
          exact h100
        · show w₂.px.core.phase = .sendResp
          rw [hpx₂]
          exact hphase
        · show w₂.px.core.flags.bodyDone = true
          rw [hpx₂]
          exact hdone

/-- An unsuccessful send at the start of the response. -/
theorem sendRespNext_refines (hphase : w.px.phase = .sendResp)
    (h100 : w.px.flags.send100 = false) (hout : w.px.hdr.length ≤ w.px.hdrOff) :
    Refines resend w (w.sendRespNext b) := by
  unfold World.sendRespNext
  split
  · rename_i h
    exact Refines.done ⟨h100, Or.inr ⟨hphase, hout⟩, h.2, Or.inl h.1⟩
  · exact ⟨_, .single (.toStream w.relay hphase hout), rfl⟩

/-- A turn of `PX_SEND_RESP` makes moves. -/
theorem sendRespTurn_refines (hb : Bounds w.relay) (hphase : w.px.phase = .sendResp)
    (h100 : w.px.flags.send100 = false) : Refines resend w (w.sendRespTurn now b) := by
  unfold World.sendRespTurn
  split
  · rename_i hdone
    exact sendGatheredTurn_refines hb hphase h100 hdone
  have hrel := w.corkClient_relay true
  set v := w.corkClient true with hv
  have hpx : v.px = w.px := w.corkClient_px true
  have hphase' : v.px.phase = .sendResp := by rw [hpx, hphase]
  have h100' : v.px.flags.send100 = false := by rw [hpx, h100]
  have hb' : Bounds v.relay := by rw [hrel]; exact hb
  refine Refines.of_moves (v := v) (by rw [hrel]) ?_
  simp only
  split
  · rename_i hlt
    set r := v.kernel.send .client (v.px.hdr.drop v.px.hdrOff) with hr
    have hn : r.1 ≤ v.px.hdr.length - v.px.hdrOff := by
      have := send_le v.kernel .client (v.px.hdr.drop v.px.hdrOff)
      rwa [List.length_drop] at this
    set v₁ : World := { v with
      kernel := r.2.2
      px := { v.px with hdrOff := v.px.hdrOff + r.1 } } with hv₁
    have hm : Move resend v.relay (v₁.markSent r.1).relay := by
      rw [markSent_relay]
      exact .sendRespHead v.relay r.1 hphase' h100' hn
    have hb₁ := hm.bounds hb'
    have hpx₁ : (v₁.markSent r.1).px.core = _ := congrArg Relay.px (markSent_relay v₁ r.1)
    refine Refines.of_moves (.single hm) ?_
    cases hout : r.2.1 with
    | dead => exact clientDead_refines hb₁
    | wouldBlock => exact ⟨_, .refl, World.moved_relay _ now r.1, rfl⟩
    | done =>
        have hall := (send_done _ _ _).1 hout
        rw [List.length_drop] at hall
        refine Refines.of_moved now r.1 ?_
        refine sendRespNext_refines ?_ ?_ ?_
        · rw [World.moved_px]
          show (v₁.markSent r.1).px.core.phase = _
          rw [hpx₁]
          exact hphase'
        · rw [World.moved_px]
          show (v₁.markSent r.1).px.core.flags.send100 = _
          rw [hpx₁]
          exact h100'
        · rw [World.moved_px]
          show (v₁.markSent r.1).px.core.hdr.length ≤ (v₁.markSent r.1).px.core.hdrOff
          rw [hpx₁]
          show v.px.hdr.length ≤ v.px.hdrOff + r.1
          have : r.1 = v.px.hdr.length - v.px.hdrOff := hall
          omega
  · exact sendRespNext_refines hphase' h100' (by omega)

/-- With bytes in the buffer, a turn of `PX_STREAM` sends them to the client. -/
theorem streamTurn_refines_pending (hb : Bounds w.relay) (hphase : w.px.phase = .stream)
    (h100 : w.px.flags.send100 = false) (hlt : w.px.bufOff < w.px.buf.length) :
    Refines resend w (w.streamTurn now b) := by
  unfold World.streamTurn
  rw [if_pos hlt]
  set r := w.kernel.send .client (w.px.buf.drop w.px.bufOff) with hr
  have hn : r.1 ≤ w.px.buf.length - w.px.bufOff := by
    have := send_le w.kernel .client (w.px.buf.drop w.px.bufOff)
    rwa [List.length_drop] at this
  set w₁ : World := { w with
    kernel := r.2.2
    px := { w.px with bufOff := w.px.bufOff + r.1 } } with hw₁
  have hm : Move resend w.relay (w₁.markSent r.1).relay := by
    rw [markSent_relay]
    exact .sendStream w.relay r.1 hphase h100 hn
  have hpx₁ : (w₁.markSent r.1).px.core = _ := congrArg Relay.px (markSent_relay w₁ r.1)
  simp only
  cases hout : r.2.1 with
  | dead =>
      have hb₁ := hm.bounds hb
      rw [markSent_relay] at hb₁
      refine ⟨_, .single hm, ?_⟩
      rw [markSent_relay]
      exact ⟨rfl, rfl, rfl, rfl, rfl, Or.inl rfl, hb₁.hdr_off, hb₁.hdr_len, hb₁.buf_off, hb₁.buf_len,
        hb₁.body_off, hb₁.body_end, hb₁.body_left, hb₁.chunk, hb₁.wrapped⟩
  | wouldBlock => exact ⟨_, .single hm, World.moved_relay _ now r.1, rfl⟩
  | done =>
      have hall := (send_done _ _ _).1 hout
      rw [List.length_drop] at hall
      set v := (w₁.markSent r.1).moved now r.1 with hv
      have hrel : v.relay = (w₁.markSent r.1).relay := World.moved_relay _ now r.1
      have hpx : v.px.core = _ := (congrArg Relay.px hrel).trans hpx₁
      have hphase' : v.relay.px.phase = .stream := by
        show v.px.core.phase = _
        rw [hpx]
        exact hphase
      have hdrained : v.relay.px.buf.length ≤ v.relay.px.bufOff := by
        show v.px.core.buf.length ≤ v.px.core.bufOff
        rw [hpx]
        show w.px.buf.length ≤ w.px.bufOff + r.1
        have : r.1 = w.px.buf.length - w.px.bufOff := hall
        omega
      have hm' : Move resend v.relay
          (World.relay { v with px := { v.px with bufOff := 0, buf := [] } }) :=
        .drained v.relay (Or.inr hphase') hdrained
      refine Refines.of_moves ((Relation.ReflTransGen.single (hrel ▸ hm)).tail hm') ?_
      simp only
      split
      · rename_i hdone
        refine Refines.done ⟨?_, Or.inl hphase', le_rfl, Or.inl hdone⟩
        show v.px.core.flags.send100 = false
        rw [hpx]
        exact h100
      · exact Refines.again

/-- With the buffer sent, it reads the next bytes of the response. -/
theorem streamTurn_refines_drained (hb : Bounds w.relay) (hphase : w.px.phase = .stream)
    (h100 : w.px.flags.send100 = false) (hout : w.px.buf.length ≤ w.px.bufOff) :
    Refines resend w (w.streamTurn now b) := by
  unfold World.streamTurn
  rw [if_neg (Nat.not_lt.2 hout)]
  split
  · rename_i hdone
    exact Refines.done ⟨h100, Or.inl hphase, hout, Or.inl hdone⟩
  rename_i hdone
  have hdone' : w.px.flags.bodyDone = false := by simpa using hdone
  simp only
  set cap := if w.px.flags.respCl = true ∧ w.px.respLeft < PROXY_BUF_MAX then w.px.respLeft
    else PROXY_BUF_MAX with hcap
  have hcap_le : cap ≤ PROXY_BUF_MAX := by
    rw [hcap]
    split <;> omega
  split
  -- All bytes of the declared length have come.
  · rename_i hzero
    have hcl : w.px.flags.respCl = true ∧ w.px.respLeft = 0 := by
      rw [hcap] at hzero
      split at hzero
      · exact ⟨(by assumption : _ ∧ _).1, hzero⟩
      · exact absurd hzero (by decide)
    refine ⟨_, .single (.endOfLength w.relay hphase hout hcl.1 hcl.2), rfl, h100, Or.inl hphase,
      hout, Or.inl rfl⟩
  set v : World := { w with px := { w.px with bufOff := 0, buf := [] } } with hv
  have hm : Move resend w.relay v.relay := .drained w.relay (Or.inr hphase) hout
  have hrel := read_relay v cap
  set r := w.kernel.read .upstream cap with hr
  cases hgot : r.1 with
  | interrupted =>
      rw [show (v.kernel.read .upstream cap).1 = _ from hgot] at hrel
      exact ⟨_, .single hm, hrel⟩
  | wouldBlock =>
      rw [show (v.kernel.read .upstream cap).1 = _ from hgot] at hrel
      exact ⟨_, .single hm, hrel, rfl⟩
  | error =>
      rw [show (v.kernel.read .upstream cap).1 = _ from hgot] at hrel
      exact ⟨_, .single hm, .of_relay hrel (hm.bounds hb)⟩
  | eof =>
      rw [show (v.kernel.read .upstream cap).1 = _ from hgot] at hrel
      have hm' : Move resend v.relay _ := .upstreamEof v.relay (Or.inr hphase)
      have hms : Moves resend w.relay _ := (Relation.ReflTransGen.single hm).tail hm'
      simp only
      -- The response runs until the connection closes, so it is complete.
      split
      · rename_i heof
        refine ⟨_, hms, hrel, h100, Or.inl hphase, le_rfl, Or.inr ⟨heof, ?_⟩⟩
        intro c hc
        cases hconns : v.relay.conns with
        | nil =>
            rw [hconns] at hc
            cases hc
        | cons c₀ cs =>
            rw [hconns] at hc
            cases hc
            rfl
      -- It was cut short.
      · exact ⟨_, hms, .of_relay hrel (hms.bounds hb)⟩
  | got bytes =>
      have hlen : bytes.length ≤ PROXY_BUF_MAX :=
        (read_got (k := w.kernel) (e := .upstream) (Prod.ext hgot rfl : r = (_, r.2))).trans hcap_le
      rw [show (v.kernel.read .upstream cap).1 = _ from hgot] at hrel
      set px₁ : ProxyConn := { w.px with bufOff := 0, buf := bytes } with hpx₁
      have hnote := noteBody_core px₁ bytes.length
      have hwrap : (w.wrapped || decide (px₁.buf.length < bytes.length)) = w.wrapped := by
        rw [decide_eq_false (Nat.lt_irrefl _), Bool.or_false]
      have hconns : r.2.wire.conns =
          onNewest w.relay.conns fun c => { c with received := c.received ++ bytes } :=
        congrArg Relay.conns hrel
      have hcin : r.2.wire.clientIn = w.relay.clientIn := congrArg Relay.clientIn hrel
      have hcout : r.2.wire.clientOut = w.relay.clientOut := congrArg Relay.clientOut hrel
      simp only
      split
      -- A chunk is malformed: the bytes were read, and the exchange fails.
      · refine ⟨_, .refl, rfl, rfl, rfl, hcin, hcout, Or.inr (Or.inr ⟨bytes, hconns⟩), ?_⟩
        exact ⟨hb.hdr_off, hb.hdr_len, Nat.zero_le _, Nat.zero_le _, hb.body_off, hb.body_end,
          hb.body_left, hb.chunk, hb.wrapped⟩
      -- The bytes are accounted for.
      · rename_i hsome
        obtain ⟨px₂, hn, rfl⟩ := Option.map_eq_some_iff.1 hsome
        rw [show noteBody px₁ bytes.length = some px₂ from hn] at hnote
        refine ⟨_, .single (.readStream w.relay bytes px₂.core hphase hout hdone' hlen hnote), ?_⟩
        have hfd : px₂.fd = w.px.fd := (noteBody_frame hn).fd
        exact Relay.ext (congrArg Option.isSome hfd) rfl rfl rfl rfl hcin hcout hconns hwrap

/-- A turn of `PX_STREAM` makes moves. -/
theorem streamTurn_refines (hb : Bounds w.relay) (hphase : w.px.phase = .stream)
    (h100 : w.px.flags.send100 = false) : Refines resend w (w.streamTurn now b) := by
  rcases Nat.lt_or_ge w.px.bufOff w.px.buf.length with hlt | hout
  · exact streamTurn_refines_pending hb hphase h100 hlt
  · exact streamTurn_refines_drained hb hphase h100 hout

/-- `flush_100` sends the rest of the 100 Continue. -/
theorem flush100_moves (resend : Prop) (w : World) : Moves resend w.relay w.flush100.2.relay ∧
    (w.flush100.1 = .done → w.flush100.2.px.flags.send100 = false) ∧
    w.flush100.2.px.phase = w.px.phase := by
  unfold World.flush100
  split
  · rename_i h
    refine ⟨.refl, fun _ => ?_, rfl⟩
    simpa using h
  rename_i h
  have h100 : w.px.flags.send100 = true := by simpa using h
  set r := w.kernel.send .client (CONT_100.drop w.px.contOff) with hr
  set w₁ : World := { w with
    kernel := r.2.2
    px := { w.px with contOff := w.px.contOff + r.1 } } with hw₁
  have hm : Move resend w.relay w₁.relay := .sendContinue w.relay r.1 h100
  simp only
  cases hout : r.2.1 with
  | dead => exact ⟨.single hm, nofun, rfl⟩
  | wouldBlock => exact ⟨.single hm, nofun, rfl⟩
  | done =>
      have hall := (send_done _ _ _).1 hout
      rw [List.length_drop] at hall
      refine ⟨(Relation.ReflTransGen.single hm).tail (.endContinue w₁.relay h100 ?_),
        fun _ => rfl, rfl⟩
      show CONT_100.length ≤ w.px.contOff + r.1
      have : r.1 = CONT_100.length - w.px.contOff := hall
      omega

/-- A turn of any phase makes moves. -/
theorem phaseTurn_refines (hb : Bounds w.relay) (h100 : w.px.flags.send100 = false)
    (hres : w.ReadLosesBody → resend) :
    Refines resend w (w.phaseTurn now b) := by
  unfold World.phaseTurn
  cases hphase : w.px.phase with
  | none => exact Refines.fail hb
  | sendReq => exact sendReqTurn_refines hb hphase
  | sendBody => exact sendBodyTurn_refines hb hphase
  | recvHdr => exact recvHdrTurn_refines hb hphase hres
  | sendResp => exact sendRespTurn_refines hb hphase h100
  | stream => exact streamTurn_refines hb hphase h100

/-- What a spent budget gives is a `yield` or, in a state no branch covers, a
failure. -/
theorem budgetExit_cases (w : World) :
    (∃ u c, w.budgetExit = .yield u c ∧ c.yields = true) ∨ w.budgetExit = .fail := by
  unfold World.budgetExit
  simp only
  split
  · exact Or.inl ⟨_, _, rfl, rfl⟩
  split
  · exact Or.inl ⟨_, _, rfl, rfl⟩
  split
  · exact Or.inl ⟨_, _, rfl, rfl⟩
  split
  · exact Or.inl ⟨_, _, rfl, rfl⟩
  · exact Or.inr rfl

/-- A move sends a 100 Continue, or leaves it sent. -/
theorem Move.send100 {resend : Prop} {d e : Relay} (h : Move resend d e) (h100 : d.px.flags.send100 = false) :
    e.px.flags.send100 = false := by
  cases h with
  | sendContinue n hs => exact absurd hs (by rw [h100]; decide)
  | endContinue hs hall => rfl
  | finalHead _ i px hphase hend hfinal htake =>
      have hf : px.flags.send100 = false := by
        have := congrArg PxFlags.send100 (rewriteResponse_frame hfinal).flags
        exact this.trans h100
      unfold Relay.takeHead at htake
      simp only at htake
      split at htake
      · rw [← Option.some.inj htake]
        exact hf
      · obtain ⟨px₂, hn, rfl⟩ := Option.map_eq_some_iff.1 htake
        have := congrArg PxFlags.send100 (noteBody_frame hn).flags
        exact this.trans hf
  | readStream bytes px hphase hout hdone hlen hn =>
      have := congrArg PxFlags.send100 (noteBody_frame hn).flags
      exact this.trans h100
  | _ => exact h100

theorem Moves.send100 {resend : Prop} {d e : Relay} (h : Moves resend d e) (h100 : d.px.flags.send100 = false) :
    e.px.flags.send100 = false := by
  induction h with
  | refl => exact h100
  | tail _ hm ih => exact hm.send100 ih

/-- The turn sends a request again without its body. -/
def World.TurnLosesBody (b : Nat) (w : World) : Prop :=
  w.flush100.1 = .done ∧ b ≠ 0 ∧ w.flush100.2.ReadLosesBody

instance (b : Nat) (w : World) : Decidable (w.TurnLosesBody b) :=
  inferInstanceAs (Decidable (_ ∧ _ ∧ _))

/-- Every turn of the loop of `proxy_pump` is a sequence of moves. A turn that goes
past `flush_100` leaves no 100 Continue to send. -/
theorem pumpTurn_refines (now b : Nat) (hb : Bounds w.relay) (hres : w.TurnLosesBody b → resend) :
    ∃ d, Moves resend w.relay d ∧ Agrees d (w.pumpTurn now b) ∧
      ((w.pumpTurn now b).2 = .close ∨ (w.pumpTurn now b).2 = .ret .wantWrite ∨
        d.px.flags.send100 = false) := by
  obtain ⟨hms, h100, -⟩ := flush100_moves resend w
  have hb' := hms.bounds hb
  unfold World.pumpTurn
  simp only
  cases hf : w.flush100.1 with
  | dead => exact ⟨_, hms, .of_relay rfl hb', Or.inl rfl⟩
  | wouldBlock => exact ⟨_, hms, ⟨rfl, rfl⟩, Or.inr (Or.inl rfl)⟩
  | done =>
      have hsent : w.flush100.2.relay.px.flags.send100 = false := h100 hf
      have hr : Refines resend w.flush100.2 (if b = 0 then (w.flush100.2, w.flush100.2.budgetExit)
          else w.flush100.2.phaseTurn now b) := by
        by_cases hzero : b = 0
        · rw [if_pos hzero]
          rcases budgetExit_cases w.flush100.2 with ⟨u, c, h, hc⟩ | h
          · rw [h]
            exact Refines.yield hc
          · rw [h]
            exact Refines.fail hb'
        · rw [if_neg hzero]
          exact phaseTurn_refines hb' (h100 hf) fun h => hres ⟨hf, hzero, h⟩
      obtain ⟨d, hmd, ha⟩ := hr
      exact ⟨d, hms.trans hmd, ha, Or.inr (Or.inr (hmd.send100 hsent))⟩

end Turns

end TinyServer.Proxy
