import TinyServer.Lib.Transfer
import TinyServer.Proxy.Exchange
import TinyServer.Proxy.HeadLines

/-!
# What goes to the client

The bytes an exchange sends to its client are a 100 Continue, if one is owed, and
then the response: the head that `rewrite_response` made and the body that the frame
cuts out of what the upstream sent after it. `ClientInv` says which part of this is
out and which part is in the two buffers of the slot.
-/

set_option autoImplicit false

namespace TinyServer.Proxy

open TinyServer.Http TinyServer.Net TinyServer.Lib

/-! ## The invariant -/

/-- What went out: part of the 100 Continue while it is pending, then all of it and the
bytes `out` of the response. -/
def ClientSent (cont : List UInt8) (d : Relay) (out : List UInt8) : Prop :=
  match d.px.flags.send100 with
  | true => cont = CONT_100 ∧ out = [] ∧ d.clientOut = CONT_100.take d.px.contOff
  | false => d.clientOut = cont ++ out

/-- No response has been accepted. -/
structure Unanswered (d : Relay) (out : List UInt8) : Prop where
  out : out = []
  respSent : d.px.flags.respSent = false
  clientKeep : d.px.flags.clientKeep = false

/-- The response in `received` is on its way: what is out and what is buffered make up
its head and its body so far. -/
structure Relaying (d : Relay) (received out : List UInt8) (r : Response) (rest : List UInt8) :
    Prop where
  answer : ∀ t, answer d.req (received ++ t) = some (r, rest ++ t)
  framed : Framed d.px rest r.frame
  clientKeep : d.px.flags.clientKeep = r.keep
  bytes : out ++ (d.px.hdr.drop d.px.hdrOff ++ d.px.buf.drop d.px.bufOff) =
    r.head ++ r.frame.cut rest
  unsent : d.px.flags.respSent = false → out = []

/-- How the response bytes `out` come from the bytes `received` on the newest
connection, by phase. -/
def ClientPhase (d : Relay) (received out : List UInt8) : Prop :=
  match d.px.phase with
  | .none => False
  | .sendReq | .sendBody => Unanswered d out ∧ received = []
  | .recvHdr =>
      Unanswered d out ∧ ∀ t, answer d.req (received ++ t) = answer d.req (d.px.buf ++ t)
  | .sendResp => ∃ r rest, Relaying d received out r rest
  | .stream => d.px.hdr.length ≤ d.px.hdrOff ∧ ∃ r rest, Relaying d received out r rest

/-- The invariant: what the client was sent, and how it comes from what the newest connection
received. -/
def ClientInv (cont : List UInt8) (d : Relay) : Prop :=
  ∃ c cs out, d.conns = c :: cs ∧ ClientSent cont d out ∧ ClientPhase d c.received out

section Invariant

variable {cont : List UInt8} {d e : Relay}

/-- The slot without what is left of the 100 Continue. -/
def ProxyConn.afterContinue (px : ProxyConn) : ProxyConn :=
  { px with contOff := 0, flags := { px.flags with send100 := false } }

/-- The 100 Continue does not touch the response. -/
theorem ClientPhase.congr {received out : List UInt8} (h : ClientPhase d received out)
    (hreq : e.req = d.req) (hpx : e.px.afterContinue = d.px.afterContinue) :
    ClientPhase e received out := by
  have view : ∀ {α : Type} (f : ProxyConn → α), f e.px.afterContinue = f d.px.afterContinue :=
    fun f => congrArg f hpx
  have hphase : e.px.phase = d.px.phase := view ProxyConn.phase
  have hsent : e.px.flags.respSent = d.px.flags.respSent := view (·.flags.respSent)
  have hkeep : e.px.flags.clientKeep = d.px.flags.clientKeep := view (·.flags.clientKeep)
  have hcount : counters e.px = counters d.px := view counters
  have hbuf : e.px.buf = d.px.buf := view ProxyConn.buf
  have hbufOff : e.px.bufOff = d.px.bufOff := view ProxyConn.bufOff
  have hhdr : e.px.hdr = d.px.hdr := view ProxyConn.hdr
  have hhdrOff : e.px.hdrOff = d.px.hdrOff := view ProxyConn.hdrOff
  have hun : Unanswered d out → Unanswered e out := fun hu =>
    ⟨hu.out, hsent.trans hu.respSent, hkeep.trans hu.clientKeep⟩
  have hrel : ∀ r rest, Relaying d received out r rest → Relaying e received out r rest :=
    fun r rest hr => ⟨by rw [hreq]; exact hr.answer, hr.framed.congr hcount,
      hkeep.trans hr.clientKeep, by rw [hhdr, hhdrOff, hbuf, hbufOff]; exact hr.bytes,
      fun hs => hr.unsent (hsent.symm.trans hs)⟩
  unfold ClientPhase at h ⊢
  rw [hphase]
  cases hp : d.px.phase with
  | none => rw [hp] at h; exact h
  | sendReq => rw [hp] at h; exact ⟨hun h.1, h.2⟩
  | sendBody => rw [hp] at h; exact ⟨hun h.1, h.2⟩
  | recvHdr =>
      rw [hp] at h
      refine ⟨hun h.1, fun t => ?_⟩
      rw [hreq, hbuf]
      exact h.2 t
  | sendResp =>
      rw [hp] at h
      obtain ⟨r, rest, hr⟩ := h
      exact ⟨r, rest, hrel r rest hr⟩
  | stream =>
      rw [hp] at h
      obtain ⟨hoff, r, rest, hr⟩ := h
      refine ⟨?_, r, rest, hrel r rest hr⟩
      rw [hhdr, hhdrOff]
      exact hoff

/-- A move that sends nothing to the client. -/
theorem ClientInv.keep (hi : ClientInv cont d) (hout : e.clientOut = d.clientOut)
    (h100 : e.px.flags.send100 = d.px.flags.send100) (hoff : e.px.contOff = d.px.contOff)
    (hconns : ∀ c cs out, d.conns = c :: cs → ClientPhase d c.received out →
      ∃ c' cs', e.conns = c' :: cs' ∧ ClientPhase e c'.received out) : ClientInv cont e := by
  obtain ⟨c, cs, out, hc, hs, hp⟩ := hi
  obtain ⟨c', cs', hc', hp'⟩ := hconns c cs out hc hp
  refine ⟨c', cs', out, hc', ?_, hp'⟩
  unfold ClientSent at hs ⊢
  rw [h100, hoff, hout]
  exact hs

/-- A move on the way of the request. -/
theorem ClientInv.early (hi : ClientInv cont d) (hout : e.clientOut = d.clientOut)
    (h100 : e.px.flags.send100 = d.px.flags.send100) (hoff : e.px.contOff = d.px.contOff)
    (hsent : e.px.flags.respSent = d.px.flags.respSent)
    (hkeep : e.px.flags.clientKeep = d.px.flags.clientKeep)
    (hd : d.px.phase = .sendReq ∨ d.px.phase = .sendBody)
    (he : e.px.phase = .sendReq ∨ e.px.phase = .sendBody ∨ (e.px.phase = .recvHdr ∧ e.px.buf = []))
    (hconns : ∀ c cs, d.conns = c :: cs → c.received = [] →
      ∃ c' cs', e.conns = c' :: cs' ∧ c'.received = []) : ClientInv cont e := by
  refine hi.keep hout h100 hoff fun c cs out hc hp => ?_
  obtain ⟨hun, hrec⟩ : Unanswered d out ∧ c.received = [] := by
    unfold ClientPhase at hp
    rcases hd with h | h <;> rw [h] at hp <;> exact hp
  obtain ⟨c', cs', hc', hrec'⟩ := hconns c cs hc hrec
  have hun' : Unanswered e out :=
    ⟨hun.out, hsent.trans hun.respSent, hkeep.trans hun.clientKeep⟩
  refine ⟨c', cs', hc', ?_⟩
  unfold ClientPhase
  rcases he with h | h | ⟨h, hbuf⟩ <;> rw [h]
  · exact ⟨hun', hrec'⟩
  · exact ⟨hun', hrec'⟩
  · refine ⟨hun', fun t => ?_⟩
    rw [hrec', hbuf]

/-- Sending on the newest connection receives nothing. -/
theorem onNewest_received {conns : List UpstreamConn} {f : UpstreamConn → UpstreamConn}
    (hf : ∀ c, (f c).received = c.received) :
    ∀ c cs, conns = c :: cs → c.received = [] →
      ∃ c' cs', onNewest conns f = c' :: cs' ∧ c'.received = [] := by
  rintro c cs rfl h
  exact ⟨f c, cs, rfl, (hf c).trans h⟩

/-- Bytes of the response go out of the buffers. -/
theorem Relaying.send {received out sent : List UInt8} {r : Response} {rest : List UInt8}
    (h : Relaying d received out r rest) (hreq : e.req = d.req)
    (hframed : Framed e.px rest r.frame) (hkeep : e.px.flags.clientKeep = d.px.flags.clientKeep)
    (hbytes : (out ++ sent) ++ (e.px.hdr.drop e.px.hdrOff ++ e.px.buf.drop e.px.bufOff) =
      out ++ (d.px.hdr.drop d.px.hdrOff ++ d.px.buf.drop d.px.bufOff))
    (hunsent : e.px.flags.respSent = false → d.px.flags.respSent = false ∧ sent = []) :
    Relaying e received (out ++ sent) r rest := by
  refine ⟨?_, hframed, hkeep.trans h.clientKeep, hbytes.trans h.bytes, fun hs => ?_⟩
  · rw [hreq]
    exact h.answer
  · obtain ⟨hs', hnil⟩ := hunsent hs
    rw [hnil, List.append_nil]
    exact h.unsent hs'

/-- A send of bytes of the response. -/
theorem ClientInv.respond {sent : List UInt8} (hi : ClientInv cont d)
    (hd : d.px.flags.send100 = false) (he : e.px.flags.send100 = false)
    (hout : e.clientOut = d.clientOut ++ sent)
    (hconns : ∀ c cs out, d.conns = c :: cs → ClientPhase d c.received out →
      ∃ c' cs', e.conns = c' :: cs' ∧ ClientPhase e c'.received (out ++ sent)) :
    ClientInv cont e := by
  obtain ⟨c, cs, out, hc, hs, hp⟩ := hi
  obtain ⟨c', cs', hc', hp'⟩ := hconns c cs out hc hp
  unfold ClientSent at hs
  rw [hd] at hs
  refine ⟨c', cs', out ++ sent, hc', ?_, hp'⟩
  unfold ClientSent
  rw [he]
  simp only at hs ⊢
  rw [hout, hs, List.append_assoc]

/-- A send of no bytes leaves the response unsent. -/
theorem unsent_of_or {b : Bool} {n : Nat} {bytes : List UInt8}
    (h : (b || decide (n ≠ 0)) = false) : b = false ∧ bytes.take n = [] := by
  obtain ⟨hb, hn⟩ := Bool.or_eq_false_iff.1 h
  have hzero : n = 0 := by simpa using hn
  exact ⟨hb, by rw [hzero, List.take_zero]⟩

/-- The head of a response is no business of the client's socket. -/
theorem takeHead_client {px : ProxyConn} {rest : List UInt8} (hf : HeadFrame d.px px)
    (htake : d.takeHead px rest = some e) :
    e.clientOut = d.clientOut ∧ e.px.flags.send100 = d.px.flags.send100 ∧
      e.px.contOff = d.px.contOff ∧ e.conns = d.conns := by
  have h100 : px.flags.send100 = d.px.flags.send100 := by rw [hf.flags]
  unfold Relay.takeHead at htake
  simp only at htake
  split at htake
  · rw [← Option.some.inj htake]
    exact ⟨rfl, h100, hf.contOff, rfl⟩
  · obtain ⟨px₂, hn, rfl⟩ := Option.map_eq_some_iff.1 htake
    have hnf := noteBody_frame hn
    have h100₂ : px₂.flags.send100 = px.flags.send100 := by rw [hnf.flags]
    exact ⟨rfl, h100₂.trans h100, hnf.contOff.trans hf.contOff, rfl⟩

/-- A response whose head and body both fit the buffers so far. -/
theorem takeHead_relaying {i : Nat} {px : ProxyConn} {received : List UInt8}
    (hend : findHdrEnd d.px.buf = some i)
    (hfinal : rewriteResponse d.req d.px (d.px.buf.take (i + 4)) = .final px)
    (htake : d.takeHead px (d.px.buf.drop (i + 4)) = some e)
    (hkeep : d.px.flags.clientKeep = false)
    (hrec : ∀ t, answer d.req (received ++ t) = answer d.req (d.px.buf ++ t)) :
    e.px.phase = .sendResp ∧ ∃ r, Relaying e received [] r (d.px.buf.drop (i + 4)) := by
  obtain ⟨px₀, hzero, hhdr, hck⟩ := rewriteResponse_final_zero hkeep hfinal
  have hans : ∀ t, answer d.req (received ++ t) =
      some (⟨px.hdr, responseFrame d.req (d.px.buf.take (i + 4)), px.flags.clientKeep⟩,
        -- The rewritten head, the frame of the body and the keep flag are those of the whole
        -- answer.
        d.px.buf.drop (i + 4) ++ t) := by
    intro t
    rw [hrec t, answer_final hend hzero t, hhdr, hck]
  have hoff := (rewriteResponse_frame hfinal).hdrOff
  have hframed := fun hm : d.req.method ≠ .head => rewriteResponse_framed hfinal hm
  unfold Relay.takeHead at htake
  simp only at htake
  split at htake
  · rename_i hdone
    rw [← Option.some.inj htake]
    -- Without a body nothing of what follows the head is kept.
    have hempty : Framed { px with flags := { px.flags with bodyDone := true } }
        (d.px.buf.drop (i + 4)) (responseFrame d.req (d.px.buf.take (i + 4))) ∧
        (responseFrame d.req (d.px.buf.take (i + 4))).cut (d.px.buf.drop (i + 4)) = [] := by
      by_cases hm : d.req.method = .head
      · have hf : responseFrame d.req (d.px.buf.take (i + 4)) = .empty := if_pos (Or.inl hm)
        rw [hf]
        exact ⟨rfl, rfl⟩
      · have hd : px.flags.bodyDone = true := hdone.resolve_left hm
        have hpx : ({ px with flags := { px.flags with bodyDone := true } } : ProxyConn) = px := by
          rw [← hd]
        rw [hpx]
        exact (hframed hm).2 hd _
    obtain ⟨hf, hcut⟩ := hempty
    refine ⟨rfl, _, hans, hf.congr rfl, rfl, ?_, fun _ => rfl⟩
    · show [] ++ (px.hdr.drop px.hdrOff ++ List.drop 0 []) = _
      rw [hoff, hcut]
      rfl
  -- Bytes that came with the head belong to the body as far as the frame goes.
  · rename_i hdone
    obtain ⟨hm, hbd⟩ := not_or.1 hdone
    obtain ⟨px₂, hnote, rfl⟩ := Option.map_eq_some_iff.1 htake
    have hnf := noteBody_frame hnote
    set px₁ : ProxyConn := { px with buf := d.px.buf.drop (i + 4), bufOff := 0 } with hpx₁
    have hf₁ : Framed px₁ [] (responseFrame d.req (d.px.buf.take (i + 4))) :=
      (hframed hm).1.congr rfl
    have hbd₁ : px₁.flags.bodyDone = false := by simpa using hbd
    obtain ⟨hf, hcut⟩ := noteBody_framed hf₁ hbd₁ hnote
    rw [Frame.cut_nil, List.nil_append, List.nil_append] at hcut
    have hck₂ : px₂.flags.clientKeep = px.flags.clientKeep := by rw [hnf.flags]
    refine ⟨rfl, _, hans, hf.congr rfl, hck₂, ?_, fun _ => rfl⟩
    · show [] ++ (px₂.hdr.drop px₂.hdrOff ++ px₂.buf.drop px₂.bufOff) = px.hdr ++ _
      rw [hnf.hdr, hnf.hdrOff, hnf.bufOff, hoff, hcut]
      rfl

/-! ### The moves that concern the response -/

/-- Part of the 100 Continue goes out. -/
theorem ClientInv.sendContinue (hi : ClientInv cont d) {n : Nat} (h100 : d.px.flags.send100 = true) :
    ClientInv cont ({ d with px := { d.px with contOff := d.px.contOff + n } }.sendClient
      ((CONT_100.drop d.px.contOff).take n)) := by
  obtain ⟨c, cs, out, hc, hs, hp⟩ := hi
  unfold ClientSent at hs
  rw [h100] at hs
  obtain ⟨hcont, hout, hbytes⟩ := hs
  refine ⟨c, cs, out, hc, ?_, hp.congr rfl rfl⟩
  unfold ClientSent
  simp only [Relay.sendClient, h100]
  refine ⟨hcont, hout, ?_⟩
  rw [hbytes, List.take_add]

/-- The 100 Continue is out. -/
theorem ClientInv.endContinue (hi : ClientInv cont d) (h100 : d.px.flags.send100 = true)
    (hall : CONT_100.length ≤ d.px.contOff) :
    ClientInv cont { d with px := { d.px with flags := { d.px.flags with send100 := false } } } := by
  obtain ⟨c, cs, out, hc, hs, hp⟩ := hi
  unfold ClientSent at hs
  rw [h100] at hs
  obtain ⟨hcont, hout, hbytes⟩ := hs
  refine ⟨c, cs, out, hc, ?_, hp.congr rfl rfl⟩
  show d.clientOut = cont ++ out
  rw [hbytes, List.take_of_length_le hall, hcont, hout, List.append_nil]

/-- More of a head is read. -/
theorem ClientInv.readHead (hi : ClientInv cont d) {bytes : List UInt8} (hphase : d.px.phase = .recvHdr) :
    ClientInv cont ({ d with px := { d.px with buf := d.px.buf ++ bytes } }.recvUp bytes) := by
  refine hi.keep rfl rfl rfl fun c cs out hc hp =>
    ⟨{ c with received := c.received ++ bytes }, cs, onNewest_eq _ hc, ?_⟩
  unfold ClientPhase at hp ⊢
  simp only [Relay.recvUp, hphase] at hp ⊢
  obtain ⟨hun, hans⟩ := hp
  refine ⟨⟨hun.1, hun.2, hun.3⟩, fun t => ?_⟩
  rw [List.append_assoc, List.append_assoc]
  exact hans (bytes ++ t)

/-- An interim head is dropped. -/
theorem ClientInv.skipHead (hi : ClientInv cont d) {i : Nat} (hphase : d.px.phase = .recvHdr)
    (hend : findHdrEnd d.px.buf = some i)
    (hskip : rewriteResponse d.req d.px (d.px.buf.take (i + 4)) = .skip) :
    ClientInv cont { d with px := { d.px with bufOff := 0, buf := d.px.buf.drop (i + 4) } } := by
  refine hi.keep rfl rfl rfl fun c cs out hc hp => ⟨c, cs, hc, ?_⟩
  unfold ClientPhase at hp ⊢
  simp only [hphase] at hp ⊢
  obtain ⟨hun, hans⟩ := hp
  refine ⟨⟨hun.1, hun.2, hun.3⟩, fun t => ?_⟩
  rw [hans t]
  exact answer_skip hend (rewriteResponse_skip_zero hskip) t

/-- The head of the response is rewritten. -/
theorem ClientInv.finalHead (hi : ClientInv cont d) {i : Nat} {px : ProxyConn} (hphase : d.px.phase = .recvHdr)
    (hend : findHdrEnd d.px.buf = some i)
    (hfinal : rewriteResponse d.req d.px (d.px.buf.take (i + 4)) = .final px)
    (htake : d.takeHead px (d.px.buf.drop (i + 4)) = some e) :
    ClientInv cont e := by
  have hframe := rewriteResponse_frame hfinal
  obtain ⟨hout, h100, hoff, hconns⟩ := takeHead_client hframe htake
  refine hi.keep hout h100 hoff fun c cs out hc hp => ⟨c, cs, hconns.trans hc, ?_⟩
  unfold ClientPhase at hp ⊢
  simp only [hphase] at hp
  obtain ⟨hun, hans⟩ := hp
  obtain ⟨hph, r, hr⟩ := takeHead_relaying hend hfinal htake hun.clientKeep hans
  rw [hph, hun.out]
  exact ⟨r, _, hr⟩

/-- The head and the body go out in one call. -/
theorem ClientInv.sendGathered (hi : ClientInv cont d) {n : Nat} (hphase : d.px.phase = .sendResp)
    (h100 : d.px.flags.send100 = false) :
    ClientInv cont ({ d with px := { d.px with
      hdrOff := d.px.hdrOff + min n (d.px.hdr.drop d.px.hdrOff).length
      bufOff := d.px.bufOff + (n - (d.px.hdr.drop d.px.hdrOff).length)
      flags := { d.px.flags with respSent := true } } }.sendClient
        ((d.px.hdr.drop d.px.hdrOff ++ d.px.buf.drop d.px.bufOff).take n)) := by
  refine hi.respond h100 h100 rfl fun c cs out hc hp => ⟨c, cs, hc, ?_⟩
  unfold ClientPhase at hp ⊢
  simp only [Relay.sendClient, hphase] at hp ⊢
  obtain ⟨r, rest, h⟩ := hp
  exact ⟨r, rest, h.send rfl (h.framed.congr rfl) rfl (sent_append_rest₂ _ _ _ _ _ _) nofun⟩

/-- Part of the head of the response goes out. -/
theorem ClientInv.sendRespHead (hi : ClientInv cont d) {n : Nat} (hphase : d.px.phase = .sendResp)
    (h100 : d.px.flags.send100 = false) :
    ClientInv cont ({ d with px := { d.px with
      hdrOff := d.px.hdrOff + n
      flags := { d.px.flags with respSent := d.px.flags.respSent || decide (n ≠ 0) } } }.sendClient
        ((d.px.hdr.drop d.px.hdrOff).take n)) := by
  refine hi.respond h100 h100 rfl fun c cs out hc hp => ⟨c, cs, hc, ?_⟩
  unfold ClientPhase at hp ⊢
  simp only [Relay.sendClient, hphase] at hp ⊢
  obtain ⟨r, rest, h⟩ := hp
  refine ⟨r, rest, h.send rfl (h.framed.congr rfl) rfl ?_ fun hs => ?_⟩
  · rw [← List.append_assoc, sent_append_rest, List.append_assoc]
  · exact unsent_of_or hs

/-- Part of the body of the response goes out. -/
theorem ClientInv.sendStream (hi : ClientInv cont d) {n : Nat} (hphase : d.px.phase = .stream)
    (h100 : d.px.flags.send100 = false) :
    ClientInv cont ({ d with px := { d.px with
      bufOff := d.px.bufOff + n
      flags := { d.px.flags with respSent := d.px.flags.respSent || decide (n ≠ 0) } } }.sendClient
        ((d.px.buf.drop d.px.bufOff).take n)) := by
  refine hi.respond h100 h100 rfl fun c cs out hc hp => ⟨c, cs, hc, ?_⟩
  unfold ClientPhase at hp ⊢
  simp only [Relay.sendClient, hphase] at hp ⊢
  obtain ⟨hoff, r, rest, h⟩ := hp
  refine ⟨hoff, r, rest, h.send rfl (h.framed.congr rfl) rfl ?_ fun hs => ?_⟩
  · rw [List.drop_eq_nil_of_le hoff, List.nil_append, List.nil_append]
    exact sent_append_rest _ _ _ _
  · exact unsent_of_or hs

/-- More of the body of the response is read. -/
theorem ClientInv.readStream (hi : ClientInv cont d) {bytes : List UInt8} {px : ProxyConn}
    (hphase : d.px.phase = .stream) (hout : d.px.buf.length ≤ d.px.bufOff)
    (hdone : d.px.flags.bodyDone = false)
    (hnote : noteBody { d.px with bufOff := 0, buf := bytes } bytes.length = some px) :
    ClientInv cont ({ d with px := px }.recvUp bytes) := by
  have hnf := noteBody_frame hnote
  have h100 : px.flags.send100 = d.px.flags.send100 := by rw [hnf.flags]
  have hck : px.flags.clientKeep = d.px.flags.clientKeep := by rw [hnf.flags]
  have hrs : px.flags.respSent = d.px.flags.respSent := by rw [hnf.flags]
  have hph : px.phase = .stream := hnf.phase.trans hphase
  refine hi.keep rfl h100 hnf.contOff fun c cs out hc hp =>
    ⟨{ c with received := c.received ++ bytes }, cs, onNewest_eq _ hc, ?_⟩
  unfold ClientPhase at hp ⊢
  simp only [Relay.recvUp, hphase, hph] at hp ⊢
  obtain ⟨hoff, r, rest, h⟩ := hp
  set px₁ : ProxyConn := { d.px with bufOff := 0, buf := bytes } with hpx₁
  have hf₁ : Framed px₁ rest r.frame := h.framed.congr rfl
  have hbd₁ : px₁.flags.bodyDone = false := hdone
  obtain ⟨hf, hcut⟩ := noteBody_framed hf₁ hbd₁ hnote
  refine ⟨by rw [hnf.hdr, hnf.hdrOff]; exact hoff, r, rest ++ bytes, fun t => ?_, hf,
    hck.trans h.clientKeep, ?_, fun hs => h.unsent (hrs.symm.trans hs)⟩
  · rw [List.append_assoc, List.append_assoc]
    exact h.answer (bytes ++ t)
  · -- The buffers were empty, so what came in is all there is to send.
    have hall := h.bytes
    rw [List.drop_eq_nil_of_le hout, List.drop_eq_nil_of_le hoff, List.append_nil,
      List.append_nil] at hall
    rw [hnf.hdr, hnf.hdrOff, hnf.bufOff]
    show out ++ (d.px.hdr.drop d.px.hdrOff ++ px.buf.drop 0) = _
    rw [List.drop_eq_nil_of_le hoff, List.nil_append, List.drop_zero, hall, List.append_assoc,
      hcut]

/-- The step lemma. -/
theorem ClientInv.move {resend : Prop} (hm : Move resend d e) (hi : ClientInv cont d) :
    ClientInv cont e := by
  cases hm with
  | sendContinue n h100 =>
      exact hi.sendContinue h100
  | endContinue h100 hall =>
      exact hi.endContinue h100 hall
  | sendHead n hphase hn =>
      exact hi.early rfl rfl rfl rfl rfl (Or.inl hphase) (Or.inl hphase)
        (onNewest_received fun _ => rfl)
  | reopen fd hphase hreused hoff =>
      exact hi.early rfl rfl rfl rfl rfl (Or.inl hphase) (Or.inl hphase)
        fun _ _ _ _ => ⟨_, _, rfl, rfl⟩
  | toSendBody hphase hout hbody =>
      exact hi.early rfl rfl rfl rfl rfl (Or.inl hphase) (Or.inr (Or.inl rfl))
        fun c cs hc hr => ⟨c, cs, hc, hr⟩
  | headSent hphase hout hbody =>
      exact hi.early rfl rfl rfl rfl rfl (Or.inl hphase) (Or.inr (Or.inr ⟨rfl, rfl⟩))
        fun c cs hc hr => ⟨c, cs, hc, hr⟩
  | bodySent hphase hout hbody =>
      -- Up to here nothing of the response was read.
      exact hi.early rfl rfl rfl rfl rfl (Or.inr hphase) (Or.inr (Or.inr ⟨rfl, rfl⟩))
        fun c cs hc hr => ⟨c, cs, hc, hr⟩
  | sendShuttle n hphase hn =>
      exact hi.early rfl rfl rfl rfl rfl (Or.inr hphase) (Or.inr (Or.inl hphase))
        (onNewest_received fun _ => rfl)
  | drained hphase hout =>
      rcases hphase with hphase | hphase
      · exact hi.early rfl rfl rfl rfl rfl (Or.inr hphase) (Or.inr (Or.inl hphase))
          fun c cs hc hr => ⟨c, cs, hc, hr⟩
      -- The drained buffer of `PX_STREAM` was sent, so no byte is pending.
      · refine hi.keep rfl rfl rfl fun c cs out hc hp => ⟨c, cs, hc, ?_⟩
        unfold ClientPhase at hp ⊢
        simp only [hphase] at hp ⊢
        obtain ⟨hoff, r, rest, h⟩ := hp
        refine ⟨hoff, r, rest, h.answer, h.framed.congr rfl, h.clientKeep, ?_, h.unsent⟩
        rw [← h.bytes, List.drop_eq_nil_of_le hout]
        rfl
  | sendBuffered n hphase hout hn =>
      exact hi.early rfl rfl rfl rfl rfl (Or.inr hphase) (Or.inr (Or.inl hphase))
        (onNewest_received fun _ => rfl)
  | readBody bytes hphase hout hoff hlen =>
      exact hi.early rfl rfl rfl rfl rfl (Or.inr hphase) (Or.inr (Or.inl hphase))
        fun c cs hc hr => ⟨c, cs, hc, hr⟩
  | readHead bytes hphase hlen =>
      exact hi.readHead hphase
  | upstreamEof hphase =>
      exact hi.keep rfl rfl rfl fun c cs out hc hp =>
        ⟨{ c with eof := true }, cs, onNewest_eq _ hc, hp.congr rfl rfl⟩
  | retryIdle fd hphase hreused hsent hbuf hmethod hbody =>
      -- The new connection has received nothing, like the head that is read anew.
      refine hi.keep rfl rfl rfl fun c cs out hc hp => ⟨_, _, rfl, ?_⟩
      unfold ClientPhase at hp ⊢
      simp only [hphase] at hp ⊢
      exact ⟨⟨hp.1.1, hp.1.2, hp.1.3⟩, trivial⟩
  | skipHead i hphase hend hskip =>
      exact hi.skipHead hphase hend hskip
  | finalHead _ i px hphase hend hfinal htake =>
      exact hi.finalHead hphase hend hfinal htake
  | sendGathered n hphase h100 hdone hpos hn =>
      exact hi.sendGathered hphase h100
  | sendRespHead n hphase h100 hn =>
      exact hi.sendRespHead hphase h100
  | toStream hphase hout =>
      refine hi.keep rfl rfl rfl fun c cs out hc hp => ⟨c, cs, hc, ?_⟩
      unfold ClientPhase at hp ⊢
      simp only [hphase] at hp ⊢
      obtain ⟨r, rest, h⟩ := hp
      exact ⟨hout, r, rest, h.answer, h.framed.congr rfl, h.clientKeep, h.bytes, h.unsent⟩
  | sendStream n hphase h100 hn =>
      exact hi.sendStream hphase h100
  | endOfLength hphase hout hcl hleft =>
      refine hi.keep rfl rfl rfl fun c cs out hc hp => ⟨c, cs, hc, ?_⟩
      unfold ClientPhase at hp ⊢
      simp only [hphase] at hp ⊢
      obtain ⟨hoff, r, rest, h⟩ := hp
      exact ⟨hoff, r, rest, h.answer, h.framed.endOfLength hcl hleft, h.clientKeep, h.bytes,
        h.unsent⟩
  | readStream bytes px hphase hout hdone hlen hnote =>
      exact hi.readStream hphase hout hdone hnote

/-- The run lemma. -/
theorem ClientInv.moves {resend : Prop} (hm : Moves resend d e) (hi : ClientInv cont d) :
    ClientInv cont e := by
  induction hm with
  | refl => exact hi
  | tail _ hm ih => exact ih.move hm

end Invariant

/-! ## Runs -/

/-- The 100 Continue owed to the client. -/
def contOf (w : World) : List UInt8 := if expectsContinue w.hc then CONT_100 else []

/-- What the newest upstream connection sent. -/
def received (conns : List UpstreamConn) : List UInt8 := (conns.head?.map (·.received)).getD []

/-- The invariant holds when an exchange starts. -/
theorem Starts.clientInv {w : World} {head : List UInt8} {d : Relay} (hs : Starts w head d) :
    ClientInv (contOf w) d := by
  obtain ⟨reused, hpx⟩ := hs.px
  obtain ⟨fd, r, hconns⟩ := hs.conns
  have hphase : d.px.phase = .sendReq := by rw [hpx]; rfl
  have h100 : d.px.flags.send100 = expectsContinue w.hc := by rw [hpx]; rfl
  refine ⟨_, _, [], hconns, ?_, ?_⟩
  · unfold ClientSent contOf
    rw [h100, hs.clientOut]
    cases expectsContinue w.hc with
    | true =>
        refine ⟨rfl, rfl, ?_⟩
        rw [hpx]
        rfl
    | false => rfl
  · unfold ClientPhase
    rw [hphase]
    exact ⟨⟨rfl, by rw [hpx]; rfl, by rw [hpx]; rfl⟩, rfl⟩

/-- The bytes `out` are the start of a response owed for the upstream bytes `up`: of
the rewritten head and its framed body, or of a fixed answer. -/
def Owed (w : World) (up out : List UInt8) : Prop :=
  (∃ r rest, answer w.hc.req up = some (r, rest) ∧
    out <+: contOf w ++ (r.head ++ r.frame.cut rest)) ∨
  ∃ cont resp, (cont = [] ∨ cont = contOf w) ∧ resp ∈ [RESP_405, RESP_411, RESP_502] ∧
    out <+: cont ++ resp

/-- A fixed answer is armed, and the client was sent nothing else but a complete
100 Continue. -/
structure FixedAnswer (w : World) (x : Exchange) : Prop where
  fixed : x.world.hc.fixed ∈ [RESP_405, RESP_411, RESP_502]
  out : ∃ cont, (cont = [] ∨ cont = contOf w) ∧
    x.world.kernel.wire.clientOut = cont ++ x.world.hc.fixed.take x.world.hc.fixedOff

/-- The whole response was sent. -/
def Answered (w : World) (x : Exchange) : Prop :=
  ∃ r rest, answer w.hc.req (received x.world.kernel.wire.conns) = some (r, rest) ∧
    x.world.kernel.wire.clientOut = contOf w ++ (r.head ++ r.frame.cut rest) ∧
    r.frame.Complete rest (UpstreamClosed x.world.kernel.wire.conns) ∧
    x.world.hc.keep = r.keep

/-- What the client of an exchange sees. `over` says how an exchange ends; an armed
answer excludes any byte of a response. -/
structure ClientOk (w : World) (x : Exchange) : Prop where
  owed : Owed w (received x.world.kernel.wire.conns) x.world.kernel.wire.clientOut
  done : x.stage = .returned .done → Answered w x
  «over» : x.world.px.fd = none →
    x.stage = .returned .done ∨ x.stage = .returned .close ∨ x.world.hc.phase = .writeFixed
  armed : x.world.hc.phase = .writeFixed → FixedAnswer w x
  whole : x.stage = .answered .done → x.world.hc.fixed.length ≤ x.world.hc.fixedOff

section Ends

variable {w : World} {d : Relay}

/-- What is out is part of what is owed, also when the last read broke the frame or a
last reconnect got no further. -/
theorem ClientInv.owed {left : List UpstreamConn} (hreq : d.req = w.hc.req)
    (hi : ClientInv (contOf w) d) (hl : ConnsLeft d left) : Owed w (received left) d.clientOut := by
  obtain ⟨c, cs, out, hc, hs, hp⟩ := hi
  unfold ClientSent at hs
  cases h100 : d.px.flags.send100 with
  | true =>
      rw [h100] at hs
      obtain ⟨hcont, -, hbytes⟩ := hs
      refine Or.inr ⟨contOf w, RESP_502, Or.inr rfl, by simp, ?_⟩
      rw [hbytes, hcont]
      exact (List.take_prefix _ _).trans (List.prefix_append _ _)
  | false =>
      rw [h100] at hs
      simp only at hs
      have hearly : out = [] → Owed w (received left) d.clientOut := fun hnil => by
        refine Or.inr ⟨contOf w, RESP_502, Or.inr rfl, by simp, ?_⟩
        rw [hs, hnil, List.append_nil]
        exact List.prefix_append _ _
      have hlate : ∀ r rest, Relaying d c.received out r rest →
          (d.px.phase ≠ .sendReq ∧ d.px.phase ≠ .recvHdr) →
          Owed w (received left) d.clientOut := by
        intro r rest hr hph
        obtain ⟨bytes, hrec⟩ : ∃ bytes, received left = c.received ++ bytes := by
          rcases hl with rfl | ⟨h, -⟩ | ⟨bytes, rfl⟩
          · exact ⟨[], by rw [hc, List.append_nil]; rfl⟩
          · exact absurd h.2 (by rintro (h | h); exacts [hph.1 h.1, hph.2 h.1])
          · exact ⟨bytes, by rw [hc]; rfl⟩
        refine Or.inl ⟨r, rest ++ bytes, ?_, ?_⟩
        · rw [hrec, ← hreq]
          exact hr.answer bytes
        · rw [hs, List.prefix_append_right_inj]
          have h1 : out <+: r.head ++ r.frame.cut rest := ⟨_, hr.bytes⟩
          exact h1.trans
            ((List.prefix_append_right_inj r.head).2 (r.frame.cut_append_prefix rest bytes))
      unfold ClientPhase at hp
      cases hph : d.px.phase with
      | none => rw [hph] at hp; exact hp.elim
      | sendReq => rw [hph] at hp; exact hearly hp.1.out
      | sendBody => rw [hph] at hp; exact hearly hp.1.out
      | recvHdr => rw [hph] at hp; exact hearly hp.1.out
      | sendResp =>
          rw [hph] at hp
          obtain ⟨r, rest, hr⟩ := hp
          exact hlate r rest hr ⟨by rw [hph]; nofun, by rw [hph]; nofun⟩
      | stream =>
          rw [hph] at hp
          obtain ⟨-, r, rest, hr⟩ := hp
          exact hlate r rest hr ⟨by rw [hph]; nofun, by rw [hph]; nofun⟩

/-- A finished exchange sent the whole response. -/
theorem ClientInv.answered {x : Exchange} (hreq : d.req = w.hc.req)
    (hi : ClientInv (contOf w) d) (hf : Finished d)
    (hkeep : x.world.hc.keep = d.px.flags.clientKeep)
    (hconns : x.world.kernel.wire.conns = d.conns)
    (hout : x.world.kernel.wire.clientOut = d.clientOut) : Answered w x := by
  obtain ⟨c, cs, out, hc, hs, hp⟩ := hi
  unfold ClientSent at hs
  rw [hf.send100] at hs
  simp only at hs
  obtain ⟨hoff, r, rest, hr⟩ : d.px.hdr.length ≤ d.px.hdrOff ∧
      ∃ r rest, Relaying d c.received out r rest := by
    unfold ClientPhase at hp
    rcases hf.phase with hph | ⟨hph, hoff⟩ <;> rw [hph] at hp
    · exact hp
    · exact ⟨hoff, hp⟩
  have hrec : received x.world.kernel.wire.conns = c.received := by
    rw [hconns, hc]
    rfl
  refine ⟨r, rest, ?_, ?_, ?_, hkeep.trans hr.clientKeep⟩
  · have h := hr.answer []
    rw [List.append_nil, List.append_nil, hreq] at h
    rw [hrec]
    exact h
  · rw [hout, hs, ← hr.bytes, List.drop_eq_nil_of_le hoff, List.drop_eq_nil_of_le hf.buf,
      List.append_nil, List.append_nil]
  · rw [hconns]
    exact hr.framed.complete hf.frame

/-- No response byte is out when the exchange fails. -/
theorem ClientInv.unsent (hi : ClientInv (contOf w) d) (hsent : d.px.flags.respSent = false)
    (h100 : d.px.flags.send100 = false ∨ d.clientOut = []) :
    ∃ cont, (cont = [] ∨ cont = contOf w) ∧ d.clientOut = cont := by
  obtain ⟨c, cs, out, hc, hs, hp⟩ := hi
  rcases h100 with h100 | hnil
  · unfold ClientSent at hs
    rw [h100] at hs
    simp only at hs
    have hout : out = [] := by
      unfold ClientPhase at hp
      cases hph : d.px.phase with
      | none => rw [hph] at hp; exact hp.elim
      | sendReq => rw [hph] at hp; exact hp.1.out
      | sendBody => rw [hph] at hp; exact hp.1.out
      | recvHdr => rw [hph] at hp; exact hp.1.out
      | sendResp =>
          rw [hph] at hp
          obtain ⟨r, rest, hr⟩ := hp
          exact hr.unsent hsent
      | stream =>
          rw [hph] at hp
          obtain ⟨-, r, rest, hr⟩ := hp
          exact hr.unsent hsent
    rw [hout, List.append_nil] at hs
    exact ⟨contOf w, Or.inr rfl, hs⟩
  · exact ⟨[], Or.inl rfl, hnil⟩

/-- A fixed answer is done only when all of it is out. -/
theorem answered_whole {as : List Action} {x₀ : Exchange}
    (h₀ : ∀ io, x₀.stage ≠ .answered io) :
    ∀ x ∈ runStates Exchange.step x₀ as,
      x.stage = .answered .done → x.world.hc.fixed.length ≤ x.world.hc.fixedOff := by
  have hall : AllSteps Exchange.step (fun _ _ => True) x₀ as :=
    .of_forall (fun _ _ => trivial) as x₀
  refine AllSteps.invariant ?_ (fun h => absurd h (h₀ _)) hall
  intro x a y hx _ hstep hy
  cases a with
  | turn =>
      rw [Exchange.step] at hstep
      split at hstep
      · unfold Exchange.turn at hstep
        split at hstep
        · rw [← Option.some.inj hstep] at hy
          cases hy
        · obtain ⟨r, -, rfl⟩ := Option.map_eq_some_iff.1 hstep
          cases hy
      · cases hstep
  | pump now sched =>
      rw [Exchange.step] at hstep
      split at hstep
      · cases hstep
      · rw [← Option.some.inj hstep] at hy
        unfold enter at hy
        split at hy <;> cases hy
  | write now sched =>
      rw [Exchange.step] at hstep
      split at hstep
      · rw [← Option.some.inj hstep] at hy ⊢
        unfold Exchange.write fixedOnWrite at hy ⊢
        split at hy
        · cases hy
        · rename_i hdl
          rw [if_neg hdl]
          simp only [writeFixed] at hy ⊢
          injection hy with hio
          set k : Kernel := { x.world.kernel with sched := sched } with hk
          cases ho : (k.send .client (x.world.hc.fixed.drop x.world.hc.fixedOff)).2.1 with
          | done =>
              have hall := (send_done _ _ _).1 ho
              rw [List.length_drop] at hall
              show _ ≤ x.world.hc.fixedOff +
                (k.send .client (x.world.hc.fixed.drop x.world.hc.fixedOff)).1
              omega
          | wouldBlock => rw [ho] at hio; cases hio
          | dead => rw [ho] at hio; cases hio
      · cases hstep

end Ends

/-- An exchange does not start with an answer on its way. -/
theorem beginExchange_stage (w : World) (addr : List UInt8) (len now : Nat) (io : HttpIo) :
    (beginExchange w addr len now).stage ≠ .answered io := by
  unfold beginExchange
  split
  · nofun
  · unfold enter
    split <;> nofun

/-- What a client is sent in one state of a run. -/
theorem client_ok {w : World} (hw : Begins w) {addr : List UInt8} {len now : Nat}
    {as : List Action} {x : Exchange}
    (hx : x ∈ runStates Exchange.step (beginExchange w addr len now) as) : ClientOk w x := by
  have hwhole := answered_whole (beginExchange_stage w addr len now) x hx
  rcases trace_of_mem_all hw x hx with hr | ⟨head, d₀, hs, ht⟩
  -- No upstream was opened: the client gets one of the fixed texts.
  · have hfix : FixedAnswer w x := ⟨hr.fixed, [], Or.inl rfl, hr.out⟩
    refine ⟨Or.inr ⟨[], x.world.hc.fixed, Or.inl rfl, hr.fixed, ?_⟩, ?_,
      fun _ => Or.inr (Or.inr hr.phase), fun _ => hfix, hwhole⟩
    · rw [hr.out]
      exact List.take_prefix _ _
    · intro hst
      rcases hr.stage with h | h | ⟨io, h⟩ <;> rw [hst] at h <;> cases h
  cases ht with
  | live hm hlive =>
      -- The exchange still runs, so its stage is none of those at the end.
      have hi := hs.clientInv.moves hm
      have hfr := hm.frame
      have hread : x.world.hc.phase = .read := hfr.clientPhase.trans hs.clientPhase
      have hup : x.world.px.fd.isSome = true := hfr.up hs.up
      refine ⟨hi.owed (hfr.req.trans hs.req) (Or.inl rfl), ?_, ?_, ?_, hwhole⟩
      · intro hst
        rw [hst] at hlive
        cases hlive
      · intro hfd
        rw [hfd] at hup
        cases hup
      · intro hph
        rw [hread] at hph
        cases hph
  | «over» d hm ho =>
      have hi := hs.clientInv.moves hm
      have hfr := hm.frame
      have hreq := hfr.req.trans hs.req
      have hread : d.clientPhase = .read := hfr.clientPhase.trans hs.clientPhase
      -- It is over: the owed bytes were fixed by the last move.
      have howed := hi.owed hreq ho.conns
      cases ho.outcome with
      | done hstage hf hkeep hphase hconns hout =>
          refine ⟨by rw [hout]; exact howed, fun _ => hi.answered hreq hf hkeep hconns hout,
            fun _ => Or.inl hstage, ?_, hwhole⟩
          intro hph
          rw [hphase, hread] at hph
          cases hph
      | closed hstage hphase hout =>
          refine ⟨by rw [hout]; exact howed, ?_, fun _ => Or.inr (Or.inl hstage), ?_, hwhole⟩
          · intro hst
            rw [hstage] at hst
            cases hst
          · intro hph
            rw [hphase, hread] at hph
            cases hph
      -- A failed exchange sends a fixed text only where no byte of a response went out.
      | failed hstage hsent h100 hphase hfixed hout =>
          obtain ⟨cont, hcont, hd⟩ := hi.unsent hsent h100
          have hmem : x.world.hc.fixed ∈ [RESP_405, RESP_411, RESP_502] := by
            rw [hfixed]
            simp
          rw [hd, ← hfixed] at hout
          refine ⟨Or.inr ⟨cont, x.world.hc.fixed, hcont, hmem, ?_⟩, ?_,
            fun _ => Or.inr (Or.inr hphase), fun _ => ⟨hmem, cont, hcont, hout⟩, hwhole⟩
          · rw [hout, List.prefix_append_right_inj]
            exact List.take_prefix _ _
          · intro hst
            rcases hstage with h | h | ⟨io, h⟩ <;> rw [hst] at h <;> cases h

/-- What a client is sent, in every state of every run: the start of one response, all
of it when the exchange is done, and nothing of it before a fixed answer. -/
theorem client_sent_response {w : World} (hw : Begins w) (addr : List UInt8) (len now : Nat)
    (as : List Action) :
    ∀ x ∈ runStates Exchange.step (beginExchange w addr len now) as, ClientOk w x :=
  fun _ hx => client_ok hw hx

/-- A GET that is answered from a new connection. -/
def answeredSlot (response : List UInt8) : World :=
  readySlot (cstr "GET / HTTP/1.1\r\nHost: a\r\n\r\n") [] { Schedule.quiet with
    sockets := [some 5]
    upstreamSends := [.sent 99]
    upstreamReads := [.data response, .data []]
    clientSends := [.sent 99, .sent 99] }

/-- A response with a length. -/
theorem client_sent_response_get :
    Begins (answeredSlot (cstr "HTTP/1.1 200 OK\r\nContent-Length: 1\r\n\r\nx")) ∧
      ∀ x ∈ runStates Exchange.step
      (beginExchange (answeredSlot (cstr "HTTP/1.1 200 OK\r\nContent-Length: 1\r\n\r\nx")) [1] 1 0)
      (List.replicate 3 .turn),
      ClientOk (answeredSlot (cstr "HTTP/1.1 200 OK\r\nContent-Length: 1\r\n\r\nx")) x :=
  ⟨readySlot_begins (by decide),
    client_sent_response (readySlot_begins (by decide)) [1] 1 0 (List.replicate 3 .turn)⟩

/-! ## Bodies that end with the connection -/

/-- A body without a length the client can see ends with the connection: the head says
so, and the client is not kept once the exchange is done. -/
def CloseDelimits (w : World) (x : Exchange) : Prop :=
  ∀ r rest, answer w.hc.req (received x.world.kernel.wire.conns) = some (r, rest) →
    r.frame = .untilClose →
      connectionValues r.head = [cstr "close"] ∧
        (x.stage = .returned .done → x.world.hc.keep = false)

/-- The end of the connection delimits such a body exactly when the request does not
ask for the connection to be kept. -/
theorem closeDelimits_iff {w : World} (hw : Begins w) (addr : List UInt8) (len now : Nat)
    (as : List Action) :
    ∀ x ∈ runStates Exchange.step (beginExchange w addr len now) as,
      CloseDelimits w x ↔
        ∀ r rest, answer w.hc.req (received x.world.kernel.wire.conns) = some (r, rest) →
          r.frame ≠ .untilClose ∨ httpShouldKeepalive w.hc.req = false := by
  intro x hx
  have hok := client_ok hw hx
  constructor
  · intro h r rest hans
    obtain ⟨hkeep, htext⟩ := answer_keep hans
    by_cases hframe : r.frame = .untilClose
    · obtain ⟨hclose, -⟩ := h r rest hans hframe
      right
      rw [← hkeep]
      cases hk : r.keep with
      | false => rfl
      | true =>
          rw [htext, hk] at hclose
          exact absurd hclose (by decide)
    · exact Or.inl hframe
  · intro h r rest hans hframe
    obtain ⟨hkeep, htext⟩ := answer_keep hans
    have hno : r.keep = false := by
      rcases h r rest hans with hne | hno
      · exact absurd hframe hne
      · exact hkeep.trans hno
    refine ⟨by rw [htext, hno]; rfl, fun hdone => ?_⟩
    obtain ⟨r', rest', hans', -, -, hk⟩ := hok.done hdone
    rw [hans] at hans'
    cases hans'
    exact hk.trans hno

/-- A response that ends with its connection. -/
theorem closeDelimits_iff_get :
    Begins (answeredSlot (cstr "HTTP/1.1 200 OK\r\n\r\nx")) ∧ ∀ x ∈ runStates Exchange.step
      (beginExchange (answeredSlot (cstr "HTTP/1.1 200 OK\r\n\r\nx")) [1] 1 0) [.turn, .turn],
      CloseDelimits (answeredSlot (cstr "HTTP/1.1 200 OK\r\n\r\nx")) x ↔
        ∀ r rest, answer (answeredSlot (cstr "HTTP/1.1 200 OK\r\n\r\nx")).hc.req
          (received x.world.kernel.wire.conns) = some (r, rest) →
          r.frame ≠ .untilClose ∨ httpShouldKeepalive
            (answeredSlot (cstr "HTTP/1.1 200 OK\r\n\r\nx")).hc.req = false :=
  ⟨readySlot_begins (by decide),
    closeDelimits_iff (readySlot_begins (by decide)) [1] 1 0 [.turn, .turn]⟩

/-- A body that only the end of the connection delimits, on a connection that is
kept. -/
theorem closeDelimited_kept :
    Begins (answeredSlot (cstr "HTTP/1.1 200 OK\r\n\r\nx")) ∧
      ∃ x ∈ runStates Exchange.step
        (beginExchange (answeredSlot (cstr "HTTP/1.1 200 OK\r\n\r\nx")) [1] 1 0)
        (List.replicate 5 .turn),
        ¬ CloseDelimits (answeredSlot (cstr "HTTP/1.1 200 OK\r\n\r\nx")) x := by
  refine ⟨readySlot_begins (by decide), ?_⟩
  have h : ((runTo Exchange.step
      (beginExchange (answeredSlot (cstr "HTTP/1.1 200 OK\r\n\r\nx")) [1] 1 0)
      (List.replicate 5 .turn)).map fun x => (x.stage, x.world.hc.keep,
        (answer (answeredSlot (cstr "HTTP/1.1 200 OK\r\n\r\nx")).hc.req
          (received x.world.kernel.wire.conns)).map fun a => a.1.frame)) =
      some (.returned .done, true, some .untilClose) := by
    decide
  obtain ⟨x, hx, heq⟩ := Option.map_eq_some_iff.1 h
  simp only [Prod.mk.injEq] at heq
  obtain ⟨hstage, hkeep, hans⟩ := heq
  obtain ⟨⟨r, rest⟩, hr, hframe⟩ := Option.map_eq_some_iff.1 hans
  refine ⟨x, runTo_mem hx, fun hc => ?_⟩
  obtain ⟨-, hno⟩ := hc r rest hr hframe
  rw [hno hstage] at hkeep
  cases hkeep

end TinyServer.Proxy
