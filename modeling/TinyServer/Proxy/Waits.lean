import TinyServer.Proxy.Attempts
import TinyServer.Proxy.Client

/-!
# What a yield waits for

When `proxy_pump` yields, the slot waits for one direction of one socket: the client's
if the result says so, else the one the upstream socket is armed for (`Waits`). The
invariant of the loop is that something is left to do in the phase the slot is in
(`Unfinished`); from it each turn waits for what is missing (`pumpTurn_waits`), but for
a spent budget in `PX_RECV_HDR` with a whole head in the buffer (`Stalls`).
-/

set_option autoImplicit false

namespace TinyServer.Proxy

open TinyServer.Http TinyServer.Net TinyServer.Lib

/-! ## What is missing -/

/-- Bytes of the request are unsent. -/
def RequestUnsent (px : ProxyConn) : Prop :=
  (px.phase = .sendReq ∧ px.hdrOff < px.hdr.length) ∨
    (px.phase = .sendBody ∧ (px.bufOff < px.buf.length ∨ px.bodyOff < px.bodyEnd))

/-- Bytes for the client are unsent. -/
def ClientUnsent (px : ProxyConn) : Prop :=
  (px.flags.send100 = true ∧ px.contOff < CONT_100.length) ∨
    (px.phase = .sendResp ∧ (px.hdrOff < px.hdr.length ∨ px.bufOff < px.buf.length)) ∨
    (px.phase = .stream ∧ px.bufOff < px.buf.length)

/-- Nothing can be done before more of the response comes. -/
def ResponseMissing (px : ProxyConn) : Prop :=
  (px.phase = .recvHdr ∧ findHdrEnd px.buf = none) ∨
    (px.phase = .stream ∧ px.buf.length ≤ px.bufOff)

/-- Nothing can be done before more of the request body comes. -/
def BodyMissing (px : ProxyConn) : Prop :=
  px.phase = .sendBody ∧ px.buf.length ≤ px.bufOff ∧ px.bodyEnd ≤ px.bodyOff ∧ 0 < px.bodyLeft

/-- What the slot waits for after `proxy_pump` returned `io` is what is missing. -/
def Waits (px : ProxyConn) : HttpIo → Prop
  | .idle => px.inEpoll = true ∧
      ((px.armed = .wantRead ∧ ResponseMissing px) ∨ (px.armed = .wantWrite ∧ RequestUnsent px))
  | .wantRead => BodyMissing px
  | .wantWrite => ClientUnsent px
  | .done => False
  | .close => False

/-- A yield of the upstream for `u` and the client for `c` waits for what is missing. -/
def YieldsFor (px : ProxyConn) (u c : HttpIo) : Prop :=
  match c with
  | .idle => (u = .wantRead ∧ ResponseMissing px) ∨ (u = .wantWrite ∧ RequestUnsent px)
  | c => Waits px c

/-- In every phase something is left to do. -/
structure Unfinished (px : ProxyConn) : Prop where
  hdr : px.hdr ≠ []
  sendReq : px.phase = .sendReq → px.hdrOff < px.hdr.length
  sendResp : px.phase = .sendResp → px.hdrOff < px.hdr.length ∨ px.bufOff < px.buf.length
  stream : px.phase = .stream → px.flags.bodyDone = true → px.bufOff < px.buf.length

/-- What a turn leaves. -/
def TurnWaits (r : World × Exit) : Prop :=
  match r.2 with
  | .again _ => Unfinished r.1.px
  | .yield u c => Unfinished r.1.px ∧ YieldsFor r.1.px u c
  | .ret io => Unfinished r.1.px ∧ Waits r.1.px io
  | _ => True

/-- No budget is left, and the buffer holds a whole upstream head. -/
def World.Stalls (b : Nat) (w : World) : Prop :=
  b = 0 ∧ w.px.phase = .recvHdr ∧ findHdrEnd w.px.buf ≠ none

instance (b : Nat) (w : World) : Decidable (w.Stalls b) := inferInstanceAs (Decidable (_ ∧ _ ∧ _))

/-- The invariant does not see the descriptor and what is registered for it. -/
theorem Unfinished.of_core {px px' : ProxyConn} (h : Unfinished px.core) (hcore : px'.core = px.core) :
    Unfinished px' := by
  rw [← hcore] at h
  exact ⟨h.hdr, h.sendReq, h.sendResp, h.stream⟩

/-- In a phase before the response only the head counts. -/
theorem Unfinished.early {px : ProxyConn} (hhdr : px.hdr ≠ [])
    (hphase : px.phase = .sendBody ∨ px.phase = .recvHdr) : Unfinished px := by
  constructor
  case hdr => exact hhdr
  case sendReq =>
    intro h
    rw [h] at hphase
    rcases hphase with h | h <;> cases h
  case sendResp =>
    intro h
    rw [h] at hphase
    rcases hphase with h | h <;> cases h
  case stream =>
    intro h
    rw [h] at hphase
    rcases hphase with h | h <;> cases h

section Turns

variable {w : World} {now b : Nat}

/-- A loop of sends that the socket stopped left bytes unsent. -/
theorem send_wouldBlock {k : Kernel} {e : End} {bytes : List UInt8} {off : Nat}
    (h : (k.send e (bytes.drop off)).2.1 = .wouldBlock) :
    off + (k.send e (bytes.drop off)).1 < bytes.length := by
  have hle := send_le k e (bytes.drop off)
  have hdone := send_done k e (bytes.drop off)
  have hne : (k.send e (bytes.drop off)).1 ≠ (bytes.drop off).length := by
    intro heq
    rw [hdone.2 heq] at h
    cases h
  rw [List.length_drop] at hle hne
  omega

theorem length_pos_of_ne {bytes : List UInt8} (h : bytes ≠ []) : 0 < bytes.length :=
  List.length_pos_iff.2 h

/-- Only the slot's proxy state counts. -/
theorem TurnWaits.of_px {u v : World} {e : Exit} (h : TurnWaits (u, e)) (hpx : v.px = u.px) :
    TurnWaits (v, e) := by
  unfold TurnWaits at h ⊢
  simp only [hpx]
  exact h

theorem corkUp_core (on : Bool) : (w.corkUp on).px.core = w.px.core :=
  congrArg Relay.px (w.corkUp_relay on)

/-- The phase after a request that is out. -/
theorem toRecvHdr_waits (hhdr : w.px.hdr ≠ []) : TurnWaits
    ({ w.corkUp false with
      px := { (w.corkUp false).px with bufOff := 0, buf := [], phase := .recvHdr } }, .again b) := by
  refine Unfinished.early ?_ (Or.inr rfl)
  have hcore : (w.corkUp false).px.core.hdr = w.px.core.hdr := by rw [corkUp_core]
  intro h
  exact hhdr (hcore.symm.trans h)

theorem sendReqNext_waits (hhdr : w.px.hdr ≠ []) : TurnWaits (w.sendReqNext b) := by
  unfold World.sendReqNext
  split
  · exact Unfinished.early hhdr (Or.inl rfl)
  · exact toRecvHdr_waits hhdr

/-- On a new connection the head goes out again from its start. -/
theorem proxyReopen_unfinished {px : ProxyConn} (hhdr : w.px.hdr ≠ []) (hphase : px.phase = .sendReq)
    (hcore : px.hdr = w.proxyReopen.2.px.hdr ∧ px.hdrOff = w.proxyReopen.2.px.hdrOff) :
    Unfinished px := by
  obtain ⟨conns, up, hrel, -, -⟩ := w.proxyReopen_relay
  have hhdr' : w.proxyReopen.2.px.core.hdr = w.px.core.hdr := congrArg (fun d : Relay => d.px.hdr) hrel
  have hoff : w.proxyReopen.2.px.core.hdrOff = 0 := congrArg (fun d : Relay => d.px.hdrOff) hrel
  have hne : px.hdr ≠ [] := by
    rw [hcore.1]
    intro h
    exact hhdr (hhdr'.symm.trans h)
  constructor
  case hdr => exact hne
  case sendReq =>
    intro _
    rw [hcore.2]
    exact hoff.trans_lt (length_pos_of_ne hne)
  case sendResp => exact fun h => absurd (hphase.symm.trans h) nofun
  case stream => exact fun h => absurd (hphase.symm.trans h) nofun

theorem proxyReopen_phase (w : World) : w.proxyReopen.2.px.phase = w.px.phase := by
  obtain ⟨conns, up, hrel, -, -⟩ := w.proxyReopen_relay
  exact congrArg (fun d : Relay => d.px.phase) hrel

/-- `PX_SEND_REQ` waits for the upstream to take more of the head. -/
theorem sendReqTurn_waits (hi : Unfinished w.px) (hphase : w.px.phase = .sendReq) :
    TurnWaits (w.sendReqTurn now b) := by
  unfold World.sendReqTurn
  rw [if_pos (hi.sendReq hphase)]
  simp only
  split
  · split
    · split
      · apply proxyReopen_unfinished _ _ ⟨rfl, rfl⟩
        · exact hi.hdr
        · exact (proxyReopen_phase _).trans hphase
      · trivial
    · trivial
  · rename_i hblock
    have hlt := send_wouldBlock hblock
    refine TurnWaits.of_px ?_ (World.moved_px _ now _)
    refine ⟨⟨hi.hdr, fun _ => hlt, ?_, ?_⟩, ?_⟩
    · exact fun h => absurd (hphase.symm.trans h) nofun
    · exact fun h => absurd (hphase.symm.trans h) nofun
    · exact Or.inr ⟨rfl, Or.inl ⟨hphase, hlt⟩⟩
  · apply sendReqNext_waits
    rw [World.moved_px]
    exact hi.hdr

/-- `PX_SEND_BODY` waits for body bytes, or for the upstream to take them. -/
theorem sendBodyTurn_waits (hi : Unfinished w.px) (hphase : w.px.phase = .sendBody) :
    TurnWaits (w.sendBodyTurn now b) := by
  unfold World.sendBodyTurn
  split
  · simp only
    split
    · trivial
    · rename_i hblock
      have hlt := send_wouldBlock hblock
      refine TurnWaits.of_px ?_ (World.moved_px _ now _)
      refine ⟨?_, ?_⟩
      · exact Unfinished.early hi.hdr (Or.inl hphase)
      · exact Or.inr ⟨rfl, Or.inr ⟨hphase, Or.inl hlt⟩⟩
    · refine Unfinished.early ?_ (Or.inl ?_)
      · simp only [World.moved_px]
        exact hi.hdr
      · simp only [World.moved_px]
        exact hphase
  split
  · simp only
    split
    · trivial
    · rename_i hblock
      have hlt := send_wouldBlock hblock
      rw [List.length_take] at hlt
      refine TurnWaits.of_px ?_ (World.moved_px _ now _)
      refine ⟨?_, ?_⟩
      · exact Unfinished.early hi.hdr (Or.inl hphase)
      · refine Or.inr ⟨rfl, Or.inr ⟨hphase, Or.inr (hlt.trans_le (Nat.min_le_left _ _))⟩⟩
    · refine TurnWaits.of_px ?_ (World.moved_px _ now _)
      exact Unfinished.early hi.hdr (Or.inl hphase)
  split
  · rename_i hbuf hbody hleft
    simp only
    split
    · exact Unfinished.early hi.hdr (Or.inl hphase)
    · refine ⟨Unfinished.early hi.hdr (Or.inl hphase), hphase, Nat.zero_le _, ?_, hleft⟩
      exact Nat.le_of_not_lt hbody
    · trivial
  · exact toRecvHdr_waits hi.hdr

/-- A retry starts over with a head to send. -/
theorem retryOrFail_waits (hhdr : w.px.hdr ≠ []) : TurnWaits (w.retryOrFail b) := by
  unfold World.retryOrFail World.proxyRetryIdle
  split
  · by_cases hcan : (!w.canRetryIdle) = true
    · rw [if_pos hcan]
      trivial
    rw [if_neg hcan]
    simp only
    by_cases hopen : (!w.proxyReopen.1) = true
    · rw [if_pos hopen]
      trivial
    · rw [if_neg hopen]
      exact proxyReopen_unfinished hhdr rfl ⟨rfl, rfl⟩
  · trivial

/-- A final head is forwarded with a `Connection` line. -/
theorem rewriteResponse_hdr_ne {req : HttpRequest} {px px' : ProxyConn} {src : List UInt8}
    (h : rewriteResponse req px src = .final px') : px'.hdr ≠ [] := by
  obtain ⟨eol, code, hdr, acc, -, -, -, -, -, hfin⟩ := rewriteResponse_final h
  obtain ⟨-, happ, -⟩ := finishResponse_final hfin
  have hhdr := (appendBytes_some happ).1
  rw [hhdr]
  intro hnil
  obtain ⟨-, hline⟩ := List.append_eq_nil_iff.1 hnil
  split at hline <;> exact absurd hline (by decide)

/-- A complete response head is rewritten and sent, or the exchange fails. -/
theorem headTurn_waits {i : Nat} (hi : Unfinished w.px) (hphase : w.px.phase = .recvHdr) :
    TurnWaits (w.headTurn b i) := by
  -- The rewritten head is unsent, whatever of the body is there.
  have key : ∀ px : ProxyConn, px.hdr ≠ [] → px.hdrOff = 0 → px.phase = .sendResp →
      Unfinished px := by
    intro px hne hoff hresp
    constructor
    case hdr => exact hne
    case sendReq => exact fun h => absurd (hresp.symm.trans h) nofun
    case sendResp =>
      intro _
      rw [hoff]
      exact Or.inl (length_pos_of_ne hne)
    case stream => exact fun h => absurd (hresp.symm.trans h) nofun
  unfold World.headTurn
  simp only
  split
  · trivial
  · exact Unfinished.early hi.hdr (Or.inr hphase)
  · rename_i px hfinal
    have hne := rewriteResponse_hdr_ne hfinal
    have hframe := rewriteResponse_frame hfinal
    split
    · exact key _ hne hframe.hdrOff rfl
    split
    · trivial
    · rename_i v hn
      obtain ⟨px₂, hnote, rfl⟩ := Option.map_eq_some_iff.1 hn
      have hnf := noteBody_frame hnote
      have hhdr : px₂.hdr = px.hdr := hnf.hdr
      refine key { px₂ with phase := .sendResp } ?_ (hnf.hdrOff.trans hframe.hdrOff) rfl
      intro hnil
      exact hne (hhdr.symm.trans hnil)

/-- `PX_RECV_HDR` waits for more of the response head. -/
theorem recvHdrTurn_waits (hi : Unfinished w.px) (hphase : w.px.phase = .recvHdr) :
    TurnWaits (w.recvHdrTurn now b) := by
  unfold World.recvHdrTurn
  split
  · exact headTurn_waits hi hphase
  rename_i hnone
  split
  · trivial
  simp only
  split
  · exact hi
  · exact retryOrFail_waits hi.hdr
  · exact retryOrFail_waits hi.hdr
  · exact ⟨hi, Or.inl ⟨rfl, Or.inl ⟨hphase, hnone⟩⟩⟩
  · have hi' : ∀ bytes, Unfinished { w.px with buf := bytes } := fun bytes =>
      Unfinished.early hi.hdr (Or.inr hphase)
    split
    · exact headTurn_waits (hi' _) hphase
    split
    · trivial
    · exact hi' _

theorem clientDead_waits : TurnWaits w.clientDead := by
  unfold World.clientDead
  split <;> trivial

/-- Marking that a response byte was sent leaves the buffers as they were. -/
theorem markSent_buffers (w : World) (n : Nat) :
    (w.markSent n).px.hdrOff = w.px.hdrOff ∧ (w.markSent n).px.hdr = w.px.hdr ∧
      (w.markSent n).px.bufOff = w.px.bufOff ∧ (w.markSent n).px.buf = w.px.buf ∧
      (w.markSent n).px.phase = w.px.phase ∧
      (w.markSent n).px.flags.bodyDone = w.px.flags.bodyDone := by
  unfold World.markSent
  split <;> exact ⟨rfl, rfl, rfl, rfl, rfl, rfl⟩

theorem Unfinished.markSent (n : Nat) (hi : Unfinished w.px) : Unfinished (w.markSent n).px := by
  unfold World.markSent
  split
  · exact hi
  · exact ⟨hi.hdr, hi.sendReq, hi.sendResp, hi.stream⟩

/-- The gathered send waits for the client to take more. -/
theorem sendGatheredTurn_waits (hi : Unfinished w.px) (hphase : w.px.phase = .sendResp) :
    TurnWaits (w.sendGatheredTurn now b) := by
  unfold World.sendGatheredTurn
  simp only
  split
  · trivial
  split
  · exact clientDead_waits
  · exact ⟨hi, Or.inr (Or.inl ⟨hphase, hi.sendResp hphase⟩)⟩
  · split
    · rename_i hleft
      rw [World.moved_px, (markSent_buffers _ _).1, (markSent_buffers _ _).2.1,
        (markSent_buffers _ _).2.2.1, (markSent_buffers _ _).2.2.2.1] at hleft
      refine TurnWaits.of_px ?_ (World.moved_px _ now _)
      apply Unfinished.markSent
      constructor
      case hdr => exact hi.hdr
      case sendReq => exact fun h => absurd (hphase.symm.trans h) nofun
      case sendResp => exact fun _ => hleft
      case stream => exact fun h => absurd (hphase.symm.trans h) nofun
    · trivial

theorem sendRespNext_waits (hhdr : w.px.hdr ≠ []) : TurnWaits (w.sendRespNext b) := by
  unfold World.sendRespNext
  split
  · trivial
  · rename_i hunsent
    constructor
    case hdr => exact hhdr
    case sendReq => exact nofun
    case sendResp => exact nofun
    case stream =>
      intro _ hdone
      by_contra hsent
      exact hunsent ⟨hdone, Nat.le_of_not_lt hsent⟩

/-- `PX_SEND_RESP` waits for the client to take more. -/
theorem sendRespTurn_waits (hi : Unfinished w.px) (hphase : w.px.phase = .sendResp) :
    TurnWaits (w.sendRespTurn now b) := by
  unfold World.sendRespTurn
  split
  · exact sendGatheredTurn_waits hi hphase
  simp only
  have hpx := w.corkClient_px true
  have hi' : Unfinished (w.corkClient true).px := by
    rw [hpx]
    exact hi
  have hphase' : (w.corkClient true).px.phase = .sendResp := by
    rw [hpx]
    exact hphase
  generalize w.corkClient true = v at hi' hphase'
  split
  · split
    · exact clientDead_waits
    · rename_i hblock
      have hlt := send_wouldBlock hblock
      refine TurnWaits.of_px ?_ (World.moved_px _ now _)
      obtain ⟨h1, h2, h3, h4, h5, h6⟩ := markSent_buffers { v with
        kernel := (v.kernel.send .client (v.px.hdr.drop v.px.hdrOff)).2.2
        px := { v.px with
          hdrOff := v.px.hdrOff + (v.kernel.send .client (v.px.hdr.drop v.px.hdrOff)).1 } }
        (v.kernel.send .client (v.px.hdr.drop v.px.hdrOff)).1
      refine ⟨?_, Or.inr (Or.inl ⟨h5.trans hphase', Or.inl ?_⟩)⟩
      · apply Unfinished.markSent
        constructor
        case hdr => exact hi'.hdr
        case sendReq => exact fun h => absurd (hphase'.symm.trans h) nofun
        case sendResp => exact fun _ => Or.inl hlt
        case stream => exact fun h => absurd (hphase'.symm.trans h) nofun
      · rw [h1, h2]
        exact hlt
    · apply sendRespNext_waits
      rw [World.moved_px, (markSent_buffers _ _).2.1]
      exact hi'.hdr
  · exact sendRespNext_waits hi'.hdr

/-- A scan that ends the body consumes a byte. -/
theorem chunkLoop_done (n : Nat) : ∀ (i : Nat) (sc : ChunkScan) (s : List UInt8),
    (chunkLoop n i sc s).2.1 = .done → i < (chunkLoop n i sc s).1 := by
  induction n with
  | zero => exact fun _ _ _ h => nomatch h
  | succ n ih =>
      intro i sc s h
      cases s with
      | nil => cases h
      | cons c s =>
          rw [chunkLoop] at h ⊢
          split at h
          · rename_i hdata
            rw [if_pos hdata]
            exact (Nat.le_add_right _ _).trans_lt (ih _ _ _ h)
          · rename_i hdata
            rw [if_neg hdata]
            split at h
            · cases h
            · exact Nat.lt_succ_self i
            · exact (Nat.lt_succ_self i).trans (ih _ _ _ h)

/-- A read that completes the body leaves bytes of it to send. -/
theorem noteBody_unsent (px : ProxyConn) {px' : ProxyConn} (hne : px.buf ≠ [])
    (hoff : px.bufOff = 0) (hleft : px.flags.respCl = true → 0 < px.respLeft)
    (h : noteBody px px.buf.length = some px') (hdone' : px'.flags.bodyDone = true) :
    px'.bufOff < px'.buf.length := by
  have hpos := length_pos_of_ne hne
  have hoff' : px'.bufOff = 0 := (noteBody_frame h).bufOff.trans hoff
  rw [hoff']
  unfold noteBody at h
  split at h
  · rw [← Option.some.inj h]
    exact hpos
  split at h
  · simp only at h
    split at h
    · cases h
    · rw [← Option.some.inj h] at hdone' ⊢
      have hfed := chunkLoop_done _ 0 _ _ (eq_of_beq hdone')
      have hfed' : 0 < (chunkFeed px.chunk (px.buf.drop (sub32 px.buf.length px.buf.length))).1 := hfed
      simp only
      split
      · rw [List.length_take]
        omega
      · exact hpos
  split at h
  · rename_i hcl
    have := hleft hcl
    rw [← Option.some.inj h]
    simp only [List.length_take]
    omega
  · rw [← Option.some.inj h]
    exact hpos

/-- A read that got bytes into some room got at least one. -/
theorem read_ne {k : Kernel} {e : End} {room : Nat} {bytes : List UInt8}
    (h : (k.read e room).1 = .got bytes) (hroom : 0 < room) : bytes ≠ [] :=
  readOnce_got_ne (Prod.ext h rfl : readOnce (k.reads e) room = (_, (readOnce (k.reads e) room).2))
    hroom

/-- `PX_STREAM` waits for the side it could not go on with. -/
theorem streamTurn_waits (hi : Unfinished w.px) (hphase : w.px.phase = .stream) :
    TurnWaits (w.streamTurn now b) := by
  -- While the body goes on, an empty buffer is refilled.
  have key : ∀ px : ProxyConn, px.hdr ≠ [] → px.phase = .stream → px.flags.bodyDone = false →
      Unfinished px := by
    intro px hne hstream hdone
    constructor
    case hdr => exact hne
    case sendReq => exact fun h => absurd (hstream.symm.trans h) nofun
    case sendResp => exact fun h => absurd (hstream.symm.trans h) nofun
    case stream =>
      intro _ h
      rw [hdone] at h
      cases h
  unfold World.streamTurn
  split
  -- The client did not take all of the buffer: it is the client that is waited for.
  · simp only
    split
    · trivial
    · rename_i hblock
      have hlt := send_wouldBlock hblock
      refine TurnWaits.of_px ?_ (World.moved_px _ now _)
      obtain ⟨h1, h2, h3, h4, h5, h6⟩ := markSent_buffers { w with
        kernel := (w.kernel.send .client (w.px.buf.drop w.px.bufOff)).2.2
        px := { w.px with
          bufOff := w.px.bufOff + (w.kernel.send .client (w.px.buf.drop w.px.bufOff)).1 } }
        (w.kernel.send .client (w.px.buf.drop w.px.bufOff)).1
      refine ⟨?_, Or.inr (Or.inr ⟨h5.trans hphase, ?_⟩)⟩
      · apply Unfinished.markSent
        constructor
        case hdr => exact hi.hdr
        case sendReq => exact fun h => absurd (hphase.symm.trans h) nofun
        case sendResp => exact fun h => absurd (hphase.symm.trans h) nofun
        case stream => exact fun _ _ => hlt
      · rw [h3, h4]
        exact hlt
    -- All of it was taken, and the body goes on.
    · split
      · trivial
      · rename_i hdone
        refine key _ ?_ ?_ (by simpa using hdone)
        · simp only [World.moved_px, (markSent_buffers _ _).2.1]
          exact hi.hdr
        · simp only [World.moved_px, (markSent_buffers _ _).2.2.2.2.1]
          exact hphase
  rename_i hsent
  split
  · trivial
  rename_i hdone
  have hdone' : w.px.flags.bodyDone = false := by simpa using hdone
  simp only
  generalize hcap : (if w.px.flags.respCl = true ∧ w.px.respLeft < PROXY_BUF_MAX then w.px.respLeft
    else PROXY_BUF_MAX) = cap
  split
  · trivial
  rename_i hcap0
  split
  · exact key _ hi.hdr hphase hdone'
  · trivial
  · split <;> trivial
  -- Nothing to read: it is the upstream that is waited for.
  · exact ⟨key _ hi.hdr hphase hdone', Or.inl ⟨rfl, Or.inr ⟨hphase, Nat.zero_le _⟩⟩⟩
  · rename_i bytes hgot
    split
    · trivial
    · rename_i v hn
      obtain ⟨px', hnote, rfl⟩ := Option.map_eq_some_iff.1 hn
      have hnf := noteBody_frame hnote
      have hne : bytes ≠ [] := read_ne hgot (Nat.pos_of_ne_zero hcap0)
      have hhdr : px'.hdr = w.px.hdr := hnf.hdr
      have hph : px'.phase = w.px.phase := hnf.phase
      have hu : Unfinished px' := by
        constructor
        case hdr =>
          rw [hhdr]
          exact hi.hdr
        case sendReq => exact fun h => absurd (hphase.symm.trans (hph.symm.trans h)) nofun
        case sendResp => exact fun h => absurd (hphase.symm.trans (hph.symm.trans h)) nofun
        -- What was read is not empty after `note_body`, for the body goes on.
        case stream =>
          intro _
          refine noteBody_unsent { w.px with bufOff := 0, buf := bytes } hne rfl (fun hcl => ?_)
            hnote
          show 0 < w.px.respLeft
          have hcl' : w.px.flags.respCl = true := hcl
          rw [hcl'] at hcap
          simp only [true_and] at hcap
          split at hcap
          · omega
          · rename_i hbig
            exact (by decide : 0 < PROXY_BUF_MAX).trans_le (Nat.le_of_not_lt hbig)
      exact hu

/-- Whatever the phase, a turn that yields says which side it waits for. -/
theorem phaseTurn_waits (hi : Unfinished w.px) : TurnWaits (w.phaseTurn now b) := by
  unfold World.phaseTurn
  cases hphase : w.px.phase with
  | none => trivial
  | sendReq => exact sendReqTurn_waits hi hphase
  | sendBody => exact sendBodyTurn_waits hi hphase
  | recvHdr => exact recvHdrTurn_waits hi hphase
  | sendResp => exact sendRespTurn_waits hi hphase
  | stream => exact streamTurn_waits hi hphase

/-- Out of budget, the pump yields on a side that can go on, outside the stall. -/
theorem budgetExit_waits (hi : Unfinished w.px) (hstall : ¬ w.Stalls 0) :
    TurnWaits (w, w.budgetExit) := by
  unfold World.budgetExit
  simp only
  split
  · rename_i h
    refine ⟨hi, Or.inr ⟨rfl, ?_⟩⟩
    rcases h with hphase | h
    · exact Or.inl ⟨hphase, hi.sendReq hphase⟩
    · exact Or.inr h
  rename_i hunsent
  rw [not_or] at hunsent
  split
  · rename_i h
    have hdrained := fun hun => hunsent.2 ⟨h.1, hun⟩
    rw [imp_false, not_or] at hdrained
    exact ⟨hi, h.1, Nat.le_of_not_lt hdrained.1, Nat.le_of_not_lt hdrained.2, h.2⟩
  split
  · rename_i h
    refine ⟨hi, Or.inl ⟨rfl, ?_⟩⟩
    rcases h with hphase | ⟨hphase, hsent, -⟩
    · left
      refine ⟨hphase, ?_⟩
      by_contra hend
      exact hstall ⟨rfl, hphase, hend⟩
    · exact Or.inr ⟨hphase, hsent⟩
  rename_i hwait
  rw [not_or] at hwait
  split
  · rename_i h
    refine ⟨hi, Or.inr ?_⟩
    rcases h with hphase | hphase
    · exact Or.inl ⟨hphase, hi.sendResp hphase⟩
    · right
      refine ⟨hphase, ?_⟩
      -- A drained buffer is waited for at the upstream, unless the body is complete.
      by_contra hsent
      have hle := Nat.le_of_not_lt hsent
      cases hdone : w.px.flags.bodyDone with
      | false => exact hwait.2 ⟨hphase, hle, by rw [hdone]; rfl⟩
      | true => exact hsent (hi.stream hphase hdone)
  · trivial

theorem flush100_waits (hi : Unfinished w.px) : Unfinished w.flush100.2.px ∧
    (w.flush100.1 = .wouldBlock → ClientUnsent w.flush100.2.px) := by
  unfold World.flush100
  split
  · exact ⟨hi, nofun⟩
  rename_i h100
  have h100' : w.px.flags.send100 = true := by simpa using h100
  have hi' : ∀ off flags, flags.bodyDone = w.px.flags.bodyDone →
      Unfinished { w.px with contOff := off, flags := flags } := by
    intro off flags hflags
    refine ⟨hi.hdr, hi.sendReq, hi.sendResp, fun hph hdone => ?_⟩
    exact hi.stream hph (hflags.symm.trans hdone)
  simp only
  cases hout : (w.kernel.send .client (CONT_100.drop w.px.contOff)).2.1 with
  | done => exact ⟨hi' _ _ rfl, nofun⟩
  | dead => exact ⟨hi' _ _ rfl, nofun⟩
  | wouldBlock => exact ⟨hi' _ _ rfl, fun _ => Or.inl ⟨h100', send_wouldBlock hout⟩⟩

/-- Every turn waits for what is missing, unless it stalls. -/
theorem pumpTurn_waits (hi : Unfinished w.px)
    (hstall : ¬ (w.flush100.1 = .done ∧ w.flush100.2.Stalls b)) : TurnWaits (w.pumpTurn now b) := by
  obtain ⟨hflushed, hblock⟩ := flush100_waits hi
  unfold World.pumpTurn
  simp only
  cases hout : w.flush100.1 with
  | dead => trivial
  | wouldBlock => exact ⟨hflushed, hblock hout⟩
  | done =>
      by_cases hb : b = 0
      · subst hb
        exact budgetExit_waits hflushed fun h => hstall ⟨hout, h⟩
      · rw [show (if b = 0 then (w.flush100.2, w.flush100.2.budgetExit)
          else w.flush100.2.phaseTurn now b) = w.flush100.2.phaseTurn now b from if_neg hb]
        exact phaseTurn_waits hflushed

/-- Arming registers the upstream socket for `u`. -/
theorem armUp_armed {u : HttpIo} (h : (w.armUp u).1 = true) :
    (w.armUp u).2.px.inEpoll = true ∧ (w.armUp u).2.px.armed = u ∧
      (w.armUp u).2.px.fd ≠ none := by
  unfold World.armUp at h ⊢
  cases hfd : w.px.fd with
  | none =>
      rw [hfd] at h
      cases h
  | some fd =>
      rw [hfd] at h
      simp only at h ⊢
      generalize (if w.px.inEpoll = true then EpollOp.mod ⟨u = .wantRead, u = .wantWrite⟩
        else EpollOp.add ⟨u = .wantRead, u = .wantWrite⟩) = op at h ⊢
      by_cases hsame : w.px.inEpoll = true ∧ w.px.armed = u
      · rw [if_pos hsame]
        refine ⟨hsame.1, hsame.2, ?_⟩
        rw [hfd]
        exact nofun
      · rw [if_neg hsame] at h ⊢
        split at h
        · rename_i hok
          rw [if_pos hok]
          exact ⟨rfl, rfl, by rw [hfd]; exact nofun⟩
        · cases h

end Turns

/-! ## Runs -/

/-- After `proxy_pump` returned, the slot waits for what is missing. -/
def WaitsWell (x : Exchange) : Prop :=
  ∀ io, x.stage = .returned io → x.world.px.fd ≠ none → Waits x.world.px io

/-- The step yields although the head it says it waits for is there. -/
def Exchange.Stalls (x : Exchange) : Action → Prop
  | .turn =>
      match x.stage with
      | .pumping _ b => x.world.flush100.1 = .done ∧ x.world.flush100.2.Stalls b ∧
          (x.world.flush100.2.armUp .wantRead).1 = true
      | _ => False
  | _ => False

instance (x : Exchange) : ∀ a, Decidable (x.Stalls a)
  | .turn =>
      match h : x.stage with
      | .pumping _ b =>
          decidable_of_iff (x.world.flush100.1 = .done ∧ x.world.flush100.2.Stalls b ∧
            (x.world.flush100.2.armUp .wantRead).1 = true) (by rw [Exchange.Stalls, h])
      | .returned _ => isFalse (by rw [Exchange.Stalls, h]; exact id)
      | .answered _ => isFalse (by rw [Exchange.Stalls, h]; exact id)
  | .pump _ _ => isFalse id
  | .write _ _ => isFalse id

/-- Something is left to do while the exchange is on. -/
structure WaitInv (w : World) (x : Exchange) : Prop where
  traced : Refused w x ∨ ∃ head d, Starts w head d ∧ Trace True d x
  pumping : ∀ now b, x.stage = .pumping now b → Unfinished x.world.px
  unfinished : x.world.px.fd ≠ none → Unfinished x.world.px
  waits : WaitsWell x

/-- An exchange that is over waits for nothing. -/
theorem WaitInv.over {w : World} {x : Exchange} 
    (ht : Refused w x ∨ ∃ head d, Starts w head d ∧ Trace True d x)
    (hfd : x.world.px.fd = none) (hstage : ∀ now b, x.stage ≠ .pumping now b) : WaitInv w x :=
  ⟨ht, fun now b h => absurd h (hstage now b), fun h => absurd hfd h, fun _ _ h => absurd hfd h⟩

section Steps

variable {w : World} {x y : Exchange}

/-- A state inside a call shows a relay state that moves reach. -/
theorem traced_bounds (hw : Begins w) {now b : Nat} (hs : x.stage = .pumping now b)
    (ht : Refused w x ∨ ∃ head d, Starts w head d ∧ Trace True d x) : Bounds x.world.relay := by
  rcases ht with hr | ⟨head, d, hstart, ht⟩
  · rcases hr.stage with h | h | ⟨io, h⟩ <;> rw [hs] at h <;> cases h
  · cases ht with
    | live hm _ => exact hm.bounds (hstart.bounds hw)
    | «over» d' hm ho =>
        cases ho.outcome with
        | done hstage _ _ _ _ _ => rw [hs] at hstage; cases hstage
        | closed hstage _ _ => rw [hs] at hstage; cases hstage
        | failed hstage _ _ _ _ _ =>
            rcases hstage with h | h | ⟨io, h⟩ <;> rw [hs] at h <;> cases h

/-- Each step of an exchange extends its trace, or it was refused at once. -/
theorem traced_step (hw : Begins w) {a : Action}
    (ht : Refused w x ∨ ∃ head d, Starts w head d ∧ Trace True d x) (h : x.step a = some y) :
    Refused w y ∨ ∃ head d, Starts w head d ∧ Trace True d y := by
  rcases ht with hr | ⟨head, d, hs, ht⟩
  · exact Or.inl (hr.step h)
  · exact Or.inr ⟨head, d, hs, ht.step (hs.bounds hw) hs.up hs.clientPhase (fun _ => trivial) h⟩

/-- Arming changes only what is registered. -/
theorem armUp_core {v : World} (u : HttpIo) : (v.armUp u).2.px.core = v.px.core :=
  congrArg Relay.px (v.armUp_relay u)

/-- What is missing does not depend on what is registered. -/
theorem missing_core {px px' : ProxyConn} (hcore : px'.core = px.core) :
    (RequestUnsent px → RequestUnsent px') ∧ (ClientUnsent px → ClientUnsent px') ∧
      (ResponseMissing px → ResponseMissing px') ∧ (BodyMissing px → BodyMissing px') := by
  have key : ∀ P : ProxyConn → Prop, (∀ q, P q.core ↔ P q) → P px → P px' := by
    intro P hP h
    rw [← hP, hcore, hP]
    exact h
  exact ⟨key _ fun _ => Iff.rfl, key _ fun _ => Iff.rfl, key _ fun _ => Iff.rfl,
    key _ fun _ => Iff.rfl⟩

/-- A yield that arms the upstream socket waits for what it yields for. -/
theorem YieldsFor.waits {v : World} {u c : HttpIo} (hy : YieldsFor v.px u c)
    (harm : (v.armUp u).1 = true) : Waits (v.armUp u).2.px c := by
  obtain ⟨hreq, hclient, hresp, hbody⟩ := missing_core (armUp_core (v := v) u)
  obtain ⟨hin, harmed, -⟩ := armUp_armed harm
  cases c with
  | idle =>
      refine ⟨hin, ?_⟩
      rw [harmed]
      rcases hy with ⟨hu, h⟩ | ⟨hu, h⟩
      · exact Or.inl ⟨hu, hresp h⟩
      · exact Or.inr ⟨hu, hreq h⟩
  | wantRead => exact hbody hy
  | wantWrite => exact hclient hy
  | done => exact hy
  | close => exact hy

/-- An armed upstream side leaves the client's wait as the result. -/
theorem yieldUp_eq {v : World} {u c : HttpIo} (harm : (v.armUp u).1 = true)
    (h100 : v.px.flags.send100 = false) : v.yieldUp u c = (some c, (v.armUp u).2) := by
  have hcore : (v.armUp u).2.px.core.flags.send100 = v.px.core.flags.send100 := by rw [armUp_core]
  have hsent : (v.armUp u).2.px.flags.send100 = false := hcore.trans h100
  unfold World.yieldUp
  simp only
  rw [harm, hsent]
  rfl

/-- The upstream side may fail to arm. -/
theorem yieldUp_none {v : World} {u c : HttpIo} (harm : (v.armUp u).1 = false) :
    v.yieldUp u c = (none, (v.armUp u).2) := by
  unfold World.yieldUp
  simp only
  rw [harm]
  rfl

theorem leave_yield_none {v : World} {u c : HttpIo} {now : Nat} (harm : (v.armUp u).1 = false) :
    v.leave now (.yield u c) = some ((v.armUp u).2.proxyFail now) := by
  rw [World.leave_yield_elim, yieldUp_none harm]
  rfl

theorem leave_yield {v : World} {u c : HttpIo} {now : Nat} (harm : (v.armUp u).1 = true)
    (h100 : v.px.flags.send100 = false) :
    v.leave now (.yield u c) = some (c, (v.armUp u).2) := by
  rw [World.leave_yield_elim, yieldUp_eq harm h100]
  rfl

/-- Leaving the loop ends the exchange or waits for what is missing. -/
theorem leave_waits {v u : World} {e : Exit} {now : Nat} {io : HttpIo} (hv : TurnWaits (v, e))
    (h100 : ∀ up c, e = .yield up c → v.px.flags.send100 = false)
    (h : v.leave now e = some (io, u)) (hfd : u.px.fd ≠ none) :
    Unfinished u.px ∧ Waits u.px io := by
  have hfail : ∀ v' : World, (v'.proxyFail now).2.px.fd = none :=
    fun v' => (proxyFail_released v' now).1.fd
  cases e with
  | again c => cases h
  | yield up c =>
      obtain ⟨hun, hy⟩ : Unfinished v.px ∧ YieldsFor v.px up c := hv
      cases harm : (v.armUp up).1 with
      | false =>
          rw [leave_yield_none harm] at h
          have hu : (v.armUp up).2.proxyFail now = (io, u) := Option.some.inj h
          have hnone := hfail (v.armUp up).2
          rw [hu] at hnone
          exact absurd hnone hfd
      | true =>
          rw [leave_yield harm (h100 up c rfl)] at h
          obtain ⟨rfl, rfl⟩ := Prod.mk.inj (Option.some.inj h)
          refine ⟨?_, hy.waits harm⟩
          apply Unfinished.of_core _ (armUp_core up)
          exact ⟨hun.hdr, hun.sendReq, hun.sendResp, hun.stream⟩
  | fail =>
      have hu : v.proxyFail now = (io, u) := Option.some.inj h
      have hnone := hfail v
      rw [hu] at hnone
      exact absurd hnone hfd
  | close =>
      rw [← (Prod.mk.inj (Option.some.inj h)).2] at hfd
      exact absurd (proxyClose_released v).1.fd hfd
  | done =>
      have hu : v.proxyDone = (io, u) := Option.some.inj h
      have hnone := (proxyDone_released v).1.fd
      rw [hu] at hnone
      exact absurd hnone hfd
  | ret io' =>
      obtain ⟨rfl, rfl⟩ := Prod.mk.inj (Option.some.inj h)
      exact hv

/-- In a turn that stalls the slot yields for the upstream to be readable. -/
theorem stalls_turn {v : World} {now b : Nat} (hout : v.flush100.1 = .done)
    (hstall : v.flush100.2.Stalls b) :
    v.pumpTurn now b = (v.flush100.2, .yield .wantRead .idle) := by
  obtain ⟨hb, hphase, -⟩ := hstall
  unfold World.pumpTurn World.budgetExit
  simp only [hout, hb, hphase, if_true]
  rfl

/-- One turn that does not stall. -/
theorem WaitInv.turn (hw : Begins w) {now b : Nat} (hi : WaitInv w x)
    (hs : x.stage = .pumping now b) (hstall : ¬ x.Stalls .turn) (h : x.turn now b = some y)
    (ht : Refused w y ∨ ∃ head d, Starts w head d ∧ Trace True d y) : WaitInv w y := by
  have hb := traced_bounds hw hs hi.traced
  have hu := hi.pumping now b hs
  by_cases hst : x.world.flush100.1 = .done ∧ x.world.flush100.2.Stalls b
  · -- The yield fails, and with it the exchange.
    obtain ⟨hout, hst⟩ := hst
    have harm : (x.world.flush100.2.armUp .wantRead).1 = false := by
      cases harm : (x.world.flush100.2.armUp .wantRead).1 with
      | false => rfl
      | true =>
          exfalso
          apply hstall
          unfold Exchange.Stalls
          rw [hs]
          exact ⟨hout, hst, harm⟩
    unfold Exchange.turn at h
    rw [stalls_turn hout hst] at h
    simp only [leave_yield_none harm, Option.map_some] at h
    rw [← Option.some.inj h] at ht ⊢
    apply WaitInv.over ht (proxyFail_released _ now).1.fd
    exact fun _ _ => nofun
  have hwaits : TurnWaits (x.world.pumpTurn now b) := pumpTurn_waits hu hst
  obtain ⟨d, -, ha, h100⟩ := pumpTurn_refines now b hb fun _ => True.intro
  unfold Exchange.turn at h
  rcases hr : x.world.pumpTurn now b with ⟨v, e⟩
  rw [hr] at h hwaits ha h100
  -- A yield comes after `100 Continue` is out.
  have hsent : ∀ up c, e = .yield up c → v.px.flags.send100 = false := by
    rintro up c rfl
    have hd : d.px.flags.send100 = false := by
      rcases h100 with h | h | h
      · cases h
      · cases h
      · exact h
    rw [← ha.1] at hd
    exact hd
  -- Either the pump goes round again, or it returns.
  split at h
  · rename_i heq
    obtain ⟨rfl, rfl⟩ := Prod.mk.inj heq
    rw [← Option.some.inj h] at ht ⊢
    exact ⟨ht, fun _ _ _ => hwaits, fun _ => hwaits, fun _ hst => nomatch hst⟩
  · rename_i heq
    obtain ⟨rfl, rfl⟩ := Prod.mk.inj heq
    obtain ⟨⟨io, u⟩, hleave, rfl⟩ := Option.map_eq_some_iff.1 h
    refine ⟨ht, fun _ _ hst => (nomatch hst), fun hfd => ?_, fun io' hst hfd => ?_⟩
    · exact (leave_waits hwaits hsent hleave hfd).1
    · cases hst
      exact (leave_waits hwaits hsent hleave hfd).2

/-- A call of `proxy_pump` on a slot whose exchange goes on, or is over. -/
theorem WaitInv.enter {v : World} {now : Nat} (hv : v.px.fd ≠ none → Unfinished v.px)
    (ht : Refused w (Proxy.enter now v) ∨
      ∃ head d, Starts w head d ∧ Trace True d (Proxy.enter now v)) :
    WaitInv w (Proxy.enter now v) := by
  unfold Proxy.enter World.pumpEntry at ht ⊢
  by_cases hfd : v.px.fd = none
  · rw [if_pos hfd] at ht ⊢
    exact WaitInv.over ht hfd fun _ _ => nofun
  rw [if_neg hfd] at ht ⊢
  by_cases hd : v.hc.deadlineMs ≤ now
  · rw [if_pos hd] at ht ⊢
    exact WaitInv.over ht (proxyClose_released v).1.fd fun _ _ => nofun
  · rw [if_neg hd] at ht ⊢
    exact ⟨ht, fun _ _ _ => hv hfd, hv, fun _ hst => nomatch hst⟩

/-- One step of an exchange that does not stall keeps the waits. -/
theorem WaitInv.step (hw : Begins w) {a : Action} (hi : WaitInv w x) (hstall : ¬ x.Stalls a)
    (h : x.step a = some y) : WaitInv w y := by
  have ht := traced_step hw hi.traced h
  cases a with
  | turn =>
      rw [Exchange.step] at h
      split at h
      · rename_i now b hs
        exact hi.turn hw hs hstall h ht
      · cases h
  | pump now sched =>
      rw [Exchange.step] at h
      split at h
      · cases h
      · rw [← Option.some.inj h] at ht ⊢
        exact WaitInv.enter hi.unfinished ht
  | write now sched =>
      rw [Exchange.step] at h
      split at h
      · obtain ⟨hpx, -⟩ := write_frame x now sched
        rw [← Option.some.inj h] at ht ⊢
        refine ⟨ht, by rintro _ _ ⟨⟩, ?_, by rintro _ ⟨⟩⟩
        rw [hpx]
        exact hi.unfinished
      · cases h

/-- After a turn that stalls the slot waits for a head it has. -/
theorem not_waitsWell_of_stalls {a : Action} (hstall : x.Stalls a) (h : x.step a = some y) :
    ¬ WaitsWell y := by
  cases a with
  | pump now sched => exact hstall.elim
  | write now sched => exact hstall.elim
  | turn =>
      rw [Exchange.step] at h
      unfold Exchange.Stalls at hstall
      split at h
      · rename_i now b hs
        rw [hs] at hstall
        obtain ⟨hout, hst, harm⟩ := hstall
        have h100 : x.world.flush100.2.px.flags.send100 = false := (flush100_moves True x.world).2.1 hout
        unfold Exchange.turn at h
        rw [stalls_turn hout hst] at h
        simp only [leave_yield harm h100, Option.map_some] at h
        rw [← Option.some.inj h]
        intro hwell
        obtain ⟨-, hphase, hend⟩ := hst
        have hcore := armUp_core (v := x.world.flush100.2) .wantRead
        have hph : (x.world.flush100.2.armUp .wantRead).2.px.phase = .recvHdr :=
          (congrArg ProxyConn.phase hcore).trans hphase
        have hbuf : (x.world.flush100.2.armUp .wantRead).2.px.buf = x.world.flush100.2.px.buf :=
          (congrArg ProxyConn.buf hcore).trans rfl
        have hfd := (armUp_armed harm).2.2
        obtain ⟨-, ⟨-, hmiss⟩ | ⟨-, hmiss⟩⟩ := hwell .idle rfl hfd
        · rcases hmiss with ⟨-, hnone⟩ | ⟨hstream, -⟩
          · rw [hbuf] at hnone
            exact hend hnone
          · rw [hph] at hstream
            cases hstream
        · rcases hmiss with ⟨hreq, -⟩ | ⟨hreq, -⟩ <;> rw [hph] at hreq <;> cases hreq
      · cases h

/-- Where `proxy_begin` returns at once there is no upstream socket. -/
theorem proxySetup_error {v : World} {addr : List UInt8} {len now : Nat} {r : HttpIo × World}
    (hidle : v.px.fd = none) (h : v.proxySetup addr len now = .error r) : r.2.px.fd = none := by
  have hon : ∀ (u : World) (fd : Nat) (reused : Bool), u.beginOn fd reused now = .error r →
      r.2.px.fd = none := by
    intro u fd reused hr
    unfold World.beginOn at hr
    extract_lets u₁ u₂ c u₃ at hr
    split at hr
    · rw [← Except.error.inj hr]
      exact (proxyFail_released _ now).1.fd
    · cases hr
  unfold World.proxySetup at h
  simp only at h
  split at h
  · rw [← Except.error.inj h]
    exact hidle
  split at h
  · rw [← Except.error.inj h]
    exact hidle
  split at h
  · rw [← Except.error.inj h]
    rfl
  split at h
  · exact hon _ _ _ h
  split at h
  · rw [← Except.error.inj h]
    rfl
  · exact hon _ _ _ h

/-- A rewritten head is never empty. -/
theorem rewriteRequest_ne {head hdr : List UInt8} (h : rewriteRequest head = some hdr) :
    hdr ≠ [] := by
  unfold rewriteRequest at h
  split at h
  · cases h
  split at h
  · cases h
  split at h
  · cases h
  · rw [(appendBytes_some h).1]
    intro hnil
    exact absurd (List.append_eq_nil_iff.1 hnil).2 (by decide)

/-- An exchange starts with its request unsent. -/
theorem Starts.unfinished {head : List UInt8} {d : Relay} (hs : Starts w head d) :
    Unfinished d.px := by
  obtain ⟨reused, hpx⟩ := hs.px
  have hne := rewriteRequest_ne hs.head_eq
  rw [hpx]
  exact ⟨hne, fun _ => length_pos_of_ne hne, nofun, nofun⟩

/-- An exchange starts with its waits right. -/
theorem beginExchange_waits (hw : Begins w) (addr : List UInt8) (len now : Nat) :
    WaitInv w (beginExchange w addr len now) := by
  have ht := begin_trace True hw addr len now
  have hset := proxySetup_trace True hw addr len now
  unfold beginExchange at ht ⊢
  cases hr : w.proxySetup addr len now with
  | error r =>
      rw [hr] at ht
      apply WaitInv.over ht (proxySetup_error hw.idle hr)
      exact fun _ _ => nofun
  | ok v =>
      rw [hr] at ht hset
      obtain ⟨head, d, hs, hv⟩ := hset
      refine WaitInv.enter (fun _ => ?_) ht
      have hu := hs.unfinished
      rw [← hv] at hu
      exact ⟨hu.hdr, hu.sendReq, hu.sendResp, hu.stream⟩

end Steps

/-- In every run, each yield waits for what is missing if and only if no budget runs out
in `PX_RECV_HDR` on a whole head. -/
theorem waitsWell_iff {w : World} (hw : Begins w) (addr : List UInt8) (len now : Nat)
    (as : List Action) :
    (∀ x ∈ runStates Exchange.step (beginExchange w addr len now) as, WaitsWell x) ↔
      AllSteps Exchange.step (fun x a => ¬ x.Stalls a) (beginExchange w addr len now) as :=
  forall_runStates_iff (I := WaitInv w) (fun _ hi => hi.waits)
    (fun _ _ _ hi hgood hstep => hi.step hw hgood hstep)
    (fun _ _ _ _ hbad hstep => not_waitsWell_of_stalls (not_not.1 hbad) hstep)
    (beginExchange_waits hw addr len now) as

/-- A POST whose body is late, on a slow upstream. -/
def slowSlot : World :=
  readySlot (cstr "POST / HTTP/1.1\r\nHost: a\r\nContent-Length: 3\r\n\r\na") []
    { Schedule.quiet with
      sockets := [some 5]
      upstreamSends := [.sent 20, .wouldBlock] }

/-- The exchange waits for the upstream to take the head, for the body, and for the response. -/
def waitingRun : List Action :=
  .turn :: .pump 1 { Schedule.quiet with upstreamSends := [.sent 99, .sent 99] } ::
    List.replicate 3 .turn ++
    .pump 2 { Schedule.quiet with
      clientReads := [.data (cstr "bc")]
      upstreamSends := [.sent 99]
      upstreamReads := [.data (cstr "HTTP/1.1 200 OK\r\n")] } :: List.replicate 5 .turn

theorem waitsWell_iff_slow :
    Begins slowSlot ∧
      ∃ x ∈ runStates Exchange.step (beginExchange slowSlot [1] 1 0) waitingRun,
        (x.stage = .returned .idle ∧ x.world.px.phase = .recvHdr) ∧ WaitsWell x := by
  have hbegins : Begins slowSlot := readySlot_begins (by decide)
  obtain ⟨x, hx, hstage⟩ := exists_of_run
    (p := fun x : Exchange => x.stage = .returned .idle ∧ x.world.px.phase = .recvHdr)
    (show (runTo Exchange.step (beginExchange slowSlot [1] 1 0) waitingRun).any _ = true by
      decide +kernel)
  exact ⟨hbegins, x, hx, hstage,
    (waitsWell_iff hbegins [1] 1 0 waitingRun).2 (by decide +kernel) x hx⟩

/-- A GET whose response comes in fifteen reads, the last of them the rest of a 103 head
with the final head behind it. -/
def lateHeadSlot : World :=
  readySlot (cstr "GET / HTTP/1.0\r\n\r\n") []
    { Schedule.quiet with
      sockets := [some 5]
      connects := [.connected]
      upstreamSends := [.sent 99]
      upstreamReads := ((cstr "HTTP/1.1 103 E").map fun c => .data [c]) ++
        [.data (cstr "arly Hints\r\n\r\nHTTP/1.1 200 OK\r\nContent-Length: 0\r\n\r\n")] }

/-- The budget runs out on the final head: the slot waits for the upstream to be readable. -/
theorem lateHead_stalls :
    Begins lateHeadSlot ∧
      ∃ x ∈ runStates Exchange.step (beginExchange lateHeadSlot [1] 1 0) (List.replicate 17 .turn),
        ¬ WaitsWell x := by
  refine ⟨readySlot_begins (by decide), ?_⟩
  have h : (runTo Exchange.step (beginExchange lateHeadSlot [1] 1 0)
      (List.replicate 17 .turn)).map (fun x => (x.stage, x.world.px.fd, x.world.px.phase,
        findHdrEnd x.world.px.buf)) = some (.returned .idle, some 5, .recvHdr, some 34) := by
    decide
  obtain ⟨x, hx, heq⟩ := Option.map_eq_some_iff.1 h
  simp only [Prod.mk.injEq] at heq
  obtain ⟨hstage, hfd, hphase, hend⟩ := heq
  refine ⟨x, runTo_mem hx, fun hwell => ?_⟩
  obtain ⟨-, ⟨-, hmiss⟩ | ⟨-, hmiss⟩⟩ := hwell .idle hstage (by rw [hfd]; exact nofun)
  · rcases hmiss with ⟨-, hnone⟩ | ⟨hstream, -⟩
    · rw [hend] at hnone
      cases hnone
    · rw [hphase] at hstream
      cases hstream
  · rcases hmiss with ⟨hreq, -⟩ | ⟨hreq, -⟩ <;> rw [hphase] at hreq <;> cases hreq

end TinyServer.Proxy
