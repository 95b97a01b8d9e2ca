import TinyServer.Proxy.Ends
import TinyServer.Proxy.Reparsed

/-!
# A budget that runs out

A call of `proxy_pump` stops after sixteen calls that moved bytes, in whatever state they
leave the slot. The branch for a spent budget knows what to wait for in every phase, but
for `PX_SEND_BODY` when the last byte of the body has just gone out: there it falls through
to `proxy_fail`. Where no call fails and both peers keep to the protocol, this is the only
way to a 502 (`served_iff`).
-/

set_option autoImplicit false

namespace TinyServer.Proxy

open TinyServer.Http TinyServer.Net TinyServer.Lib

/-! ## Calls that do not fail -/

/-- No call on a socket but a read is going to fail. -/
structure Faultless (s : Schedule) : Prop where
  clientSends : ∀ r ∈ s.clientSends, r ≠ .error ∧ r ≠ .sent 0
  upstreamSends : ∀ r ∈ s.upstreamSends, r ≠ .error ∧ r ≠ .sent 0
  connects : ∀ r ∈ s.connects, r ≠ .error
  epollCtls : ∀ ok ∈ s.epollCtls, ok = true

instance (s : Schedule) : Decidable (Faultless s) :=
  decidable_of_iff ((∀ r ∈ s.clientSends, r ≠ .error ∧ r ≠ .sent 0) ∧
      (∀ r ∈ s.upstreamSends, r ≠ .error ∧ r ≠ .sent 0) ∧ (∀ r ∈ s.connects, r ≠ .error) ∧
        ∀ ok ∈ s.epollCtls, ok = true)
    ⟨fun h => ⟨h.1, h.2.1, h.2.2.1, h.2.2.2⟩,
      fun h => ⟨h.clientSends, h.upstreamSends, h.connects, h.epollCtls⟩⟩

/-- The other end has not closed, and the call has not failed. -/
def staysOpen : ReadOutcome → Bool
  | .eof | .error => false
  | _ => true

section Calls

variable {k : Kernel} {e : End} {data : List UInt8}

/-- A send to a peer that takes what it can does not fail. -/
theorem sendLoop_alive {rs : List SendResult} : ∀ data : List UInt8,
    (∀ r ∈ rs, r ≠ .error ∧ r ≠ .sent 0) → (sendLoop rs data).2.1 ≠ .dead ∧
      ∀ r ∈ (sendLoop rs data).2.2, r ∈ rs := by
  induction rs with
  | nil =>
      intro data _
      cases data with
      | nil => exact ⟨nofun, fun r hr => hr⟩
      | cons b bs => exact ⟨nofun, fun r hr => hr⟩
  | cons r rs ih =>
      intro data h
      have hrest : ∀ r ∈ rs, r ≠ .error ∧ r ≠ .sent 0 :=
        fun r hr => h r (List.mem_cons_of_mem _ hr)
      have hfirst := h r List.mem_cons_self
      cases data with
      | nil => cases r <;> exact ⟨nofun, fun r hr => hr⟩
      | cons b bs =>
          cases r with
          | error => exact absurd rfl hfirst.1
          | wouldBlock => exact ⟨nofun, fun r hr => List.mem_cons_of_mem _ hr⟩
          | interrupted =>
              obtain ⟨halive, hsub⟩ := ih (b :: bs) hrest
              exact ⟨halive, fun r hr => List.mem_cons_of_mem _ (hsub r hr)⟩
          | sent n =>
              have hn : n ≠ 0 := fun hn => hfirst.2 (by rw [hn])
              obtain ⟨halive, hsub⟩ := ih ((b :: bs).drop n) hrest
              rw [sendLoop, if_neg hn]
              exact ⟨halive, fun r hr => List.mem_cons_of_mem _ (hsub r hr)⟩

/-- Nor does a gathered send. -/
theorem sendOnce_alive {rs : List SendResult} {len : Nat} (hlen : len ≠ 0)
    (h : ∀ r ∈ rs, r ≠ .error ∧ r ≠ .sent 0) : (sendOnce rs len).2.1 ≠ .dead := by
  induction rs with
  | nil => rintro ⟨⟩
  | cons r rs ih =>
      have hfirst := h r List.mem_cons_self
      cases r with
      | error => exact absurd rfl hfirst.1
      | wouldBlock => rintro ⟨⟩
      | interrupted => exact ih fun r hr => h r (List.mem_cons_of_mem _ hr)
      | sent n =>
          have hn : n ≠ 0 := fun hn => hfirst.2 (by rw [hn])
          have hmin : min n len ≠ 0 := by omega
          rw [sendOnce, if_neg hmin]
          rintro ⟨⟩

theorem sends_alive (h : Faultless k.sched) : ∀ r ∈ k.sends e, r ≠ .error ∧ r ≠ .sent 0 := by
  cases e with
  | client => exact h.clientSends
  | upstream => exact h.upstreamSends

theorem send_alive (h : Faultless k.sched) : (k.send e data).2.1 ≠ .dead :=
  (sendLoop_alive _ (sends_alive h)).1

theorem sendmsg_alive (h : Faultless k.sched) (hne : data ≠ []) :
    (k.sendmsg e data).2.1 ≠ .dead :=
  sendOnce_alive (fun h => hne (List.length_eq_zero_iff.1 h)) (sends_alive h)

/-- A send leaves a schedule without faults. -/
theorem send_faultless (h : Faultless k.sched) : Faultless (k.send e data).2.2.sched := by
  have hsub := (sendLoop_alive data (sends_alive (e := e) h)).2
  cases e with
  | client =>
      exact ⟨fun r hr => h.clientSends r (hsub r hr), h.upstreamSends, h.connects, h.epollCtls⟩
  | upstream =>
      exact ⟨h.clientSends, fun r hr => h.upstreamSends r (hsub r hr), h.connects, h.epollCtls⟩

theorem send_epoll (k : Kernel) (e : End) (data : List UInt8) :
    (k.send e data).2.2.sched.epollCtls = k.sched.epollCtls := by
  cases e with
  | client => rfl
  | upstream => rfl

theorem sendmsg_epoll (k : Kernel) (e : End) (data : List UInt8) :
    (k.sendmsg e data).2.2.sched.epollCtls = k.sched.epollCtls := by
  cases e with
  | client => rfl
  | upstream => rfl

theorem read_epoll (k : Kernel) (e : End) (room : Nat) :
    (k.read e room).2.sched.epollCtls = k.sched.epollCtls := by
  unfold Kernel.read
  rw [Kernel.recordRead_sched]
  cases e with
  | client => rfl
  | upstream => rfl

theorem readThrough_epoll (k : Kernel) (e : End) (room : Nat) :
    (k.readThrough e room).2.sched.epollCtls = k.sched.epollCtls := by
  unfold Kernel.readThrough
  rw [Kernel.recordRead_sched]
  cases e with
  | client => rfl
  | upstream => rfl

end Calls

/-! ## Peers that keep to the protocol -/

namespace World

/-- As far as the head at the front of the buffer is there, it is well formed and fits, and
so does what follows it. -/
def headSound (w : World) : Bool :=
  match findHdrEnd w.px.buf with
  | none => decide (w.px.buf.length < PROXY_BUF_MAX)
  | some at' =>
      match rewriteResponse w.hc.req w.px (w.px.buf.take (at' + 4)) with
      | .bad => false
      | .skip => true
      | .final px => decide (w.hc.req.method = .head) || px.flags.bodyDone ||
          (Proxy.noteBody { px with buf := w.px.buf.drop (at' + 4), bufOff := 0 }
            (sub32 w.px.buf.length (at' + 4))).isSome

/-- The head stays sound with what the next read of the upstream brings. -/
def nextHeadSound (w : World) : Bool :=
  match (w.kernel.read .upstream (PROXY_BUF_MAX - w.px.buf.length)).1 with
  | .got bytes => headSound { w with px := { w.px with buf := w.px.buf ++ bytes } }
  | .eof | .error => false
  | _ => true

/-- The next part of the body is framed well. Where it ends, the response may end so. -/
def nextBodySound (w : World) : Bool :=
  let cap := if w.px.flags.respCl ∧ w.px.respLeft < PROXY_BUF_MAX then w.px.respLeft
    else PROXY_BUF_MAX
  match (w.kernel.read .upstream cap).1 with
  | .got bytes => (Proxy.noteBody { w.px with bufOff := 0, buf := bytes } bytes.length).isSome
  | .eof => w.px.flags.respEof
  | .error => false
  | _ => true

/-- In the phase of the slot the peers keep to the protocol: the client does not close
before its body is there, and the upstream sends a response. -/
def peersSound (w : World) : Bool :=
  match w.px.phase with
  | .sendBody => staysOpen (w.kernel.readThrough .client (min PROXY_BUF_MAX w.px.bodyLeft)).1 ||
      decide (w.px.bodyLeft = 0 ∨ w.px.bufOff < w.px.buf.length ∨ w.px.bodyOff < w.px.bodyEnd)
  | .recvHdr => w.headSound && ((findHdrEnd w.px.buf).isSome || w.nextHeadSound)
  | .stream => w.nextBodySound || decide (w.px.bufOff < w.px.buf.length) || w.px.flags.bodyDone
  | _ => true

/-- The budget is spent, and the last byte of the request body is out. -/
def Exhausted (b : Nat) (w : World) : Prop :=
  b = 0 ∧ w.px.phase = .sendBody ∧ w.px.buf.length ≤ w.px.bufOff ∧ w.px.bodyEnd ≤ w.px.bodyOff ∧
    w.px.bodyLeft = 0

instance (b : Nat) (w : World) : Decidable (w.Exhausted b) :=
  inferInstanceAs (Decidable (_ ∧ _ ∧ _ ∧ _ ∧ _))

/-- An exchange that goes on. -/
structure Going (w : World) : Prop where
  up : w.px.fd.isSome = true
  phase : w.px.phase ≠ .none
  client : w.hc.phase = .read

/-- A turn does not end the exchange but by its end. -/
structure Serves (w : World) (r : World × Exit) : Prop where
  alive : r.2 ≠ .fail ∧ r.2 ≠ .close
  phase : r.1.px.phase ≠ .none
  epoll : r.1.kernel.sched.epollCtls = w.kernel.sched.epollCtls

section Turns

variable {w : World} {now b : Nat}

theorem markSent_kernel (w : World) (n : Nat) : (w.markSent n).kernel = w.kernel := by
  unfold markSent
  split
  · rfl
  · rfl

theorem markSent_phase (w : World) (n : Nat) : (w.markSent n).px.phase = w.px.phase := by
  unfold markSent
  split
  · rfl
  · rfl

/-- The cork of the upstream concerns no other call. -/
theorem corkUp_frame (w : World) (on : Bool) : (w.corkUp on).hc = w.hc ∧
    (w.corkUp on).kernel.sched.connects = w.kernel.sched.connects ∧
      (w.corkUp on).kernel.sched.epollCtls = w.kernel.sched.epollCtls := by
  unfold corkUp
  split
  · exact ⟨rfl, rfl, rfl⟩
  split
  · exact ⟨rfl, rfl, rfl⟩
  · extract_lets r
    split
    · exact ⟨rfl, rfl, rfl⟩
    · exact ⟨rfl, rfl, rfl⟩

theorem corkClient_epoll (w : World) (on : Bool) :
    (w.corkClient on).kernel.sched.epollCtls = w.kernel.sched.epollCtls := by
  unfold corkClient
  split
  · rfl
  split
  · rfl
  · extract_lets r
    split
    · rfl
    · rfl

/-- A turn after a step that calls no `epoll_ctl`. -/
theorem Serves.after {v : World} {r : World × Exit}
    (h : v.kernel.sched.epollCtls = w.kernel.sched.epollCtls) (h' : Serves v r) : Serves w r :=
  ⟨h'.alive, h'.phase, h'.epoll.trans h⟩

theorem sendReqNext_serves (w : World) (b : Nat) : Serves w (w.sendReqNext b) := by
  unfold sendReqNext
  split
  · exact ⟨⟨nofun, nofun⟩, nofun, rfl⟩
  · exact ⟨⟨nofun, nofun⟩, nofun, (corkUp_frame w false).2.2⟩

/-- Without faults `PX_SEND_REQ` serves. -/
theorem sendReqTurn_serves (hf : Faultless w.kernel.sched) (hphase : w.px.phase ≠ .none) :
    Serves w (w.sendReqTurn now b) := by
  unfold sendReqTurn
  split
  · extract_lets r src w₁ q
    have hepoll : (w₁.moved now r.1).kernel.sched.epollCtls = w.kernel.sched.epollCtls := by
      rw [moved_kernel]
      exact send_epoll _ _ _
    split
    · rename_i hdead
      exact absurd hdead (send_alive hf)
    · refine ⟨⟨nofun, nofun⟩, ?_, hepoll⟩
      rw [moved_px]
      exact hphase
    · exact .after hepoll (sendReqNext_serves _ _)
  · exact sendReqNext_serves w b

/-- So does `PX_SEND_BODY` with a client that sends its body. -/
theorem sendBodyTurn_serves (hf : Faultless w.kernel.sched) (hphase : w.px.phase = .sendBody)
    (hpeers : w.peersSound = true) : Serves w (w.sendBodyTurn now b) := by
  have hstay : w.px.phase ≠ .none := by
    rw [hphase]
    exact nofun
  unfold sendBodyTurn
  split
  -- The buffer still holds bytes of the request body.
  · extract_lets r src w₁
    have hepoll : (w₁.moved now r.1).kernel.sched.epollCtls = w.kernel.sched.epollCtls := by
      rw [moved_kernel]
      exact send_epoll _ _ _
    split
    · rename_i hdead
      exact absurd hdead (send_alive hf)
    · refine ⟨⟨nofun, nofun⟩, ?_, hepoll⟩
      rw [moved_px]
      exact hstay
    · refine ⟨⟨nofun, nofun⟩, ?_, hepoll⟩
      show (w₁.moved now r.1).px.phase ≠ .none
      rw [moved_px]
      exact hstay
  rename_i hbuf
  split
  -- The client's input holds more of it.
  · extract_lets r src w₁
    have hepoll : (w₁.moved now r.1).kernel.sched.epollCtls = w.kernel.sched.epollCtls := by
      rw [moved_kernel]
      exact send_epoll _ _ _
    split
    · rename_i hdead
      exact absurd hdead (send_alive hf)
    · refine ⟨⟨nofun, nofun⟩, ?_, hepoll⟩
      rw [moved_px]
      exact hstay
    · refine ⟨⟨nofun, nofun⟩, ?_, hepoll⟩
      rw [moved_px]
      exact hstay
  rename_i hinput
  split
  · rename_i hleft
    -- Or the rest is to be read from the client.
    extract_lets r src w₁
    have hopen : staysOpen r.1 = true := by
      unfold peersSound at hpeers
      rw [hphase] at hpeers
      rcases Bool.or_eq_true_iff.1 hpeers with hopen | hnone
      · exact hopen
      · exact absurd (of_decide_eq_true hnone) (by omega)
    have hepoll := readThrough_epoll w.kernel .client (min PROXY_BUF_MAX w.px.bodyLeft)
    split
    · exact ⟨⟨nofun, nofun⟩, hstay, hepoll⟩
    · exact ⟨⟨nofun, nofun⟩, hstay, hepoll⟩
    · rename_i hother hblock
      -- a read that is retried is not interrupted
      have hint : r.1 ≠ .interrupted := readRetry_ne_interrupted _ _
      cases hr : r.1 with
      -- The peer stays open, so there is neither an end nor an error.
      | got bytes => exact absurd hr (hother bytes)
      | wouldBlock => exact absurd hr hblock
      | interrupted => exact absurd hr hint
      | eof =>
          rw [hr] at hopen
          cases hopen
      | error =>
          rw [hr] at hopen
          cases hopen
  -- Nothing is left of the body: on to `PX_RECV_HDR`.
  · exact ⟨⟨nofun, nofun⟩, nofun, (corkUp_frame w false).2.2⟩

/-- A head that is there. -/
theorem headTurn_serves {at' : Nat} (hat : findHdrEnd w.px.buf = some at')
    (hphase : w.px.phase = .recvHdr) (hsound : w.headSound = true) : Serves w (w.headTurn b at') := by
  unfold headSound at hsound
  rw [hat] at hsound
  unfold headTurn
  extract_lets total rest left
  simp only at hsound
  cases hrewrite : rewriteResponse w.hc.req w.px (w.px.buf.take total) with
  | bad =>
      rw [hrewrite] at hsound
      cases hsound
  | skip =>
      refine ⟨⟨nofun, nofun⟩, ?_, rfl⟩
      show w.px.phase ≠ .none
      rw [hphase]
      exact nofun
  | final px =>
      rw [hrewrite] at hsound
      simp only [Bool.or_eq_true, decide_eq_true_eq] at hsound
      simp only
      split
      · exact ⟨⟨nofun, nofun⟩, nofun, rfl⟩
      · rename_i hbody
        split
        · rename_i hnone
          -- the framing of what follows the head is valid
          obtain hnote | hsome := hsound
          · exact absurd hnote hbody
          · rw [Option.map_eq_none_iff.1 hnone] at hsome
            cases hsome
        · rename_i v hv
          obtain ⟨px', -, rfl⟩ := Option.map_eq_some_iff.1 hv
          exact ⟨⟨nofun, nofun⟩, nofun, rfl⟩

/-- So does `PX_RECV_HDR` with an upstream that sends a head. -/
theorem recvHdrTurn_serves (hphase : w.px.phase = .recvHdr) (hpeers : w.peersSound = true) :
    Serves w (w.recvHdrTurn now b) := by
  have hstay : w.px.phase ≠ .none := by
    rw [hphase]
    exact nofun
  unfold peersSound at hpeers
  rw [hphase] at hpeers
  obtain ⟨hsound, hnext⟩ := Bool.and_eq_true_iff.1 hpeers
  unfold recvHdrTurn
  split
  · rename_i at' hat
    exact headTurn_serves hat hphase hsound
  rename_i hnone
  rw [hnone] at hnext
  have hnext : w.nextHeadSound = true := hnext
  split
  · rename_i hfull
    unfold headSound at hsound
    rw [hnone] at hsound
    exact absurd (of_decide_eq_true hsound) (not_lt.2 hfull)
  extract_lets -lift r w₁
  have hepoll := read_epoll w.kernel .upstream (PROXY_BUF_MAX - w.px.buf.length)
  unfold nextHeadSound at hnext
  have hread : (w.kernel.read .upstream (PROXY_BUF_MAX - w.px.buf.length)).1 = r.1 := rfl
  rw [hread] at hnext
  split
  · exact ⟨⟨nofun, nofun⟩, hstay, hepoll⟩
  · rename_i hr
    rw [hr] at hnext
    cases hnext
  · rename_i hr
    rw [hr] at hnext
    cases hnext
  · exact ⟨⟨nofun, nofun⟩, hstay, hepoll⟩
  · rename_i bytes hr
    rw [hr] at hnext
    extract_lets w₂
    have hsound₂ : w₂.headSound = true := hnext
    split
    · rename_i at' hat
      exact .after hepoll (headTurn_serves hat hphase hsound₂)
    rename_i hnone₂
    split
    · rename_i hfull
      unfold headSound at hsound₂
      rw [hnone₂] at hsound₂
      exact absurd (of_decide_eq_true hsound₂) (not_lt.2 hfull)
    · exact ⟨⟨nofun, nofun⟩, hstay, hepoll⟩

/-- So does the gathered send. -/
theorem sendGatheredTurn_serves (hf : Faultless w.kernel.sched) (hphase : w.px.phase ≠ .none) :
    Serves w (w.sendGatheredTurn now b) := by
  unfold sendGatheredTurn
  extract_lets head data r w₁ src w₂ w₃
  split
  · exact ⟨⟨nofun, nofun⟩, hphase, rfl⟩
  rename_i hne
  have hepoll : w₁.kernel.sched.epollCtls = w.kernel.sched.epollCtls := sendmsg_epoll _ _ _
  split
  · rename_i hdead
    exact absurd hdead (sendmsg_alive hf hne)
  · exact ⟨⟨nofun, nofun⟩, hphase, hepoll⟩
  · have hphase₃ : w₃.px.phase ≠ .none := by
      show ((w₂.markSent r.1).moved now r.1).px.phase ≠ .none
      rw [moved_px, markSent_phase]
      exact hphase
    have hepoll₃ : w₃.kernel.sched.epollCtls = w.kernel.sched.epollCtls := by
      show ((w₂.markSent r.1).moved now r.1).kernel.sched.epollCtls = _
      rw [moved_kernel, markSent_kernel]
      exact hepoll
    split
    · exact ⟨⟨nofun, nofun⟩, hphase₃, hepoll₃⟩
    · exact ⟨⟨nofun, nofun⟩, hphase₃, hepoll₃⟩

theorem sendRespNext_serves (hphase : w.px.phase ≠ .none) (b : Nat) : Serves w (w.sendRespNext b) := by
  unfold sendRespNext
  split
  · exact ⟨⟨nofun, nofun⟩, hphase, rfl⟩
  · exact ⟨⟨nofun, nofun⟩, nofun, rfl⟩

theorem corkClient_faultless (hf : Faultless w.kernel.sched) (on : Bool) :
    Faultless (w.corkClient on).kernel.sched := by
  unfold corkClient
  split
  · exact hf
  split
  · exact hf
  · extract_lets r
    have hr : Faultless r.2.sched := ⟨hf.clientSends, hf.upstreamSends, hf.connects, hf.epollCtls⟩
    split
    · exact hr
    · exact hr

/-- So does `PX_SEND_RESP`. -/
theorem sendRespTurn_serves (hf : Faultless w.kernel.sched) (hphase : w.px.phase ≠ .none) :
    Serves w (w.sendRespTurn now b) := by
  unfold sendRespTurn
  split
  · exact sendGatheredTurn_serves hf hphase
  extract_lets w₁ r src w₂ w₃
  have hepoll₁ : w₁.kernel.sched.epollCtls = w.kernel.sched.epollCtls := corkClient_epoll w true
  have hphase₁ : w₁.px.phase ≠ .none := by
    show (w.corkClient true).px.phase ≠ .none
    rw [corkClient_px]
    exact hphase
  split
  · have hepoll : (w₃.moved now r.1).kernel.sched.epollCtls = w.kernel.sched.epollCtls := by
      rw [moved_kernel]
      show (w₂.markSent r.1).kernel.sched.epollCtls = _
      rw [markSent_kernel]
      exact (send_epoll _ _ _).trans hepoll₁
    have hphase₃ : (w₃.moved now r.1).px.phase ≠ .none := by
      rw [moved_px]
      show (w₂.markSent r.1).px.phase ≠ .none
      rw [markSent_phase]
      exact hphase₁
    split
    · rename_i hdead
      exact absurd hdead (send_alive (corkClient_faultless hf true))
    · exact ⟨⟨nofun, nofun⟩, hphase₃, hepoll⟩
    · exact .after hepoll (sendRespNext_serves hphase₃ _)
  · exact .after hepoll₁ (sendRespNext_serves hphase₁ b)

/-- So does `PX_STREAM` with an upstream that sends its body. -/
theorem streamTurn_serves (hf : Faultless w.kernel.sched) (hphase : w.px.phase = .stream)
    (hpeers : w.peersSound = true) : Serves w (w.streamTurn now b) := by
  have hstay : w.px.phase ≠ .none := by
    rw [hphase]
    exact nofun
  unfold streamTurn
  split
  -- The buffer holds response bytes that the client has not taken.
  · extract_lets r src w₁ w₂ src' w₃
    have hepoll : w₂.kernel.sched.epollCtls = w.kernel.sched.epollCtls := by
      show ((w₁.markSent r.1).moved now r.1).kernel.sched.epollCtls = _
      rw [moved_kernel, markSent_kernel]
      exact send_epoll _ _ _
    have hphase₂ : w₂.px.phase ≠ .none := by
      show ((w₁.markSent r.1).moved now r.1).px.phase ≠ .none
      rw [moved_px, markSent_phase]
      exact hstay
    split
    · rename_i hdead
      exact absurd hdead (send_alive hf)
    · exact ⟨⟨nofun, nofun⟩, hphase₂, hepoll⟩
    · split
      · exact ⟨⟨nofun, nofun⟩, hphase₂, hepoll⟩
      · exact ⟨⟨nofun, nofun⟩, hphase₂, hepoll⟩
  rename_i hbuf
  split
  -- The response is complete.
  · exact ⟨⟨nofun, nofun⟩, hstay, rfl⟩
  rename_i hmore
  -- Neither holds, so the peers are sound only if the next bytes of the body are.
  have hnext : w.nextBodySound = true := by
    unfold peersSound at hpeers
    rw [hphase] at hpeers
    simp only [Bool.or_eq_true, decide_eq_true_eq] at hpeers
    rcases hpeers with (hnext | hpending) | hdone
    · exact hnext
    · exact absurd hpending hbuf
    · exact absurd hdone hmore
  extract_lets cap src flags r w₁ src'
  split
  -- The client side has a budget of its own.
  · exact ⟨⟨nofun, nofun⟩, hstay, rfl⟩
  have hepoll : r.2.sched.epollCtls = w.kernel.sched.epollCtls := read_epoll _ _ _
  have hread : nextBodySound w = match r.1 with
      | .got bytes => (Proxy.noteBody { w.px with bufOff := 0, buf := bytes } bytes.length).isSome
      | .eof => w.px.flags.respEof
      | .error => false
      | _ => true := rfl
  rw [hread] at hnext
  split
  · exact ⟨⟨nofun, nofun⟩, hstay, hepoll⟩
  · rename_i hr
    rw [hr] at hnext
    cases hnext
  · rename_i hr
    rw [hr] at hnext
    have heof : w.px.flags.respEof = true := hnext
    split
    · exact ⟨⟨nofun, nofun⟩, hstay, hepoll⟩
    · rename_i hno
      exact absurd heof hno
  · exact ⟨⟨nofun, nofun⟩, hstay, hepoll⟩
  -- The upstream gave bytes: `note_body` accepts them, since they are sound.
  · rename_i bytes hr
    rw [hr] at hnext
    split
    · rename_i hnone
      have hnone : Proxy.noteBody { w.px with bufOff := 0, buf := bytes } bytes.length = none :=
        Option.map_eq_none_iff.1 hnone
      have hsome : (Proxy.noteBody { w.px with bufOff := 0, buf := bytes } bytes.length).isSome = true :=
        hnext
      rw [hnone] at hsome
      cases hsome
    · rename_i v hv
      obtain ⟨px', hpx, rfl⟩ := Option.map_eq_some_iff.1 hv
      refine ⟨⟨nofun, nofun⟩, ?_, hepoll⟩
      show px'.phase ≠ .none
      rw [(noteBody_frame hpx).phase]
      exact hstay

/-- Without faults every phase serves. -/
theorem phaseTurn_serves (hf : Faultless w.kernel.sched) (hphase : w.px.phase ≠ .none)
    (hpeers : w.peersSound = true) : Serves w (w.phaseTurn now b) := by
  unfold phaseTurn
  cases hp : w.px.phase with
  | none => exact absurd hp hphase
  | sendReq => exact sendReqTurn_serves hf hphase
  | sendBody => exact sendBodyTurn_serves hf hp hpeers
  | recvHdr => exact recvHdrTurn_serves hp hpeers
  | sendResp => exact sendRespTurn_serves hf hphase
  | stream => exact streamTurn_serves hf hp hpeers

/-- What the branch for a spent budget does. -/
theorem budgetExit_yields (hphase : w.px.phase ≠ .none) (hmore : ¬ w.Exhausted 0) :
    ∃ u c, w.budgetExit = .yield u c := by
  unfold budgetExit
  extract_lets px
  split
  · exact ⟨_, _, rfl⟩
  rename_i hsend
  split
  · exact ⟨_, _, rfl⟩
  rename_i hbody
  split
  · exact ⟨_, _, rfl⟩
  rename_i hrecv
  split
  · exact ⟨_, _, rfl⟩
  rename_i hresp
  -- what is left is `PX_SEND_BODY` with nothing to send
  exfalso
  rw [not_or] at hsend hrecv hresp
  have hpx : px.phase = .sendBody := by
    cases hp : px.phase with
    | none => exact absurd hp hphase
    | sendReq => exact absurd hp hsend.1
    | sendBody => rfl
    | recvHdr => exact absurd hp hrecv.1
    | sendResp => exact absurd hp hresp.1
    | stream => exact absurd hp hresp.2
  have hout : ¬ (px.bufOff < px.buf.length ∨ px.bodyOff < px.bodyEnd) := fun h => hsend.2 ⟨hpx, h⟩
  have hleft : ¬ 0 < px.bodyLeft := fun h => hbody ⟨hpx, h⟩
  rw [not_or, not_lt, not_lt] at hout
  exact hmore ⟨rfl, hpx, hout.1, hout.2, Nat.le_zero.1 (not_lt.1 hleft)⟩

/-- A spent budget, after the last byte of the body. -/
theorem budgetExit_exhausted (h : w.Exhausted b) : w.budgetExit = .fail := by
  obtain ⟨-, hphase, hbuf, hinput, hleft⟩ := h
  unfold budgetExit
  simp only [hphase, hleft, not_lt.2 hbuf, not_lt.2 hinput]
  rfl

/-- The 100 Continue is no obstacle. -/
theorem flush100_spec (hf : Faultless w.kernel.sched) : Faultless w.flush100.2.kernel.sched ∧
    w.flush100.1 ≠ .dead ∧ w.flush100.2.px.phase = w.px.phase := by
  unfold flush100
  split
  · exact ⟨hf, nofun, rfl⟩
  extract_lets r src w₁
  have hrest : Faultless w₁.kernel.sched := send_faultless hf
  have halive : r.2.1 ≠ .dead := send_alive hf
  split
  · exact ⟨hrest, nofun, rfl⟩
  · exact ⟨hrest, halive, rfl⟩

/-- The 100 Continue does not spend the budget. -/
theorem flush100_exhausted (w : World) (b : Nat) : w.flush100.2.Exhausted b ↔ w.Exhausted b := by
  unfold flush100
  split
  · exact Iff.rfl
  extract_lets r src w₁
  split
  · exact Iff.rfl
  · exact Iff.rfl

/-- One turn of the loop. -/
theorem pumpTurn_serves (now : Nat) (hf : Faultless w.kernel.sched) (hphase : w.px.phase ≠ .none)
    (hpeers : 0 < b → w.flush100.2.peersSound = true)
    (hmore : w.flush100.1 = .done → ¬ w.Exhausted b) :
    ((w.pumpTurn now b).2 ≠ .fail ∧ (w.pumpTurn now b).2 ≠ .close) ∧
      (w.pumpTurn now b).1.px.phase ≠ .none ∧
        ∀ ok ∈ (w.pumpTurn now b).1.kernel.sched.epollCtls, ok = true := by
  obtain ⟨hflushed, halive, hsame⟩ := flush100_spec hf
  have hphase₁ : w.flush100.2.px.phase ≠ .none := by
    rw [hsame]
    exact hphase
  unfold pumpTurn
  extract_lets f
  split
  · rename_i hdead
    exact absurd hdead halive
  · exact ⟨⟨nofun, nofun⟩, hphase₁, hflushed.epollCtls⟩
  rename_i hdone
  split
  · rename_i hb
    rw [hb] at hmore
    obtain ⟨u, c, hyield⟩ := budgetExit_yields hphase₁
      ((flush100_exhausted w 0).not.2 (hmore hdone))
    refine ⟨?_, hphase₁, hflushed.epollCtls⟩
    show w.flush100.2.budgetExit ≠ .fail ∧ w.flush100.2.budgetExit ≠ .close
    rw [hyield]
    exact ⟨nofun, nofun⟩
  · rename_i hb
    have hturn : Serves f.2 (f.2.phaseTurn now b) :=
      phaseTurn_serves hflushed hphase₁ (hpeers (Nat.pos_of_ne_zero hb))
    refine ⟨hturn.alive, hturn.phase, ?_⟩
    rw [hturn.epoll]
    exact hflushed.epollCtls

/-- Without faults the upstream events are armed. -/
theorem armUp_faultless {v : World} {io : HttpIo} (hup : v.px.fd.isSome = true)
    (hepoll : ∀ ok ∈ v.kernel.sched.epollCtls, ok = true) : (v.armUp io).1 = true := by
  obtain ⟨fd, hfd⟩ := Option.isSome_iff_exists.1 hup
  unfold armUp
  rw [hfd]
  simp only
  split
  · rfl
  · have hok : ∀ op, (v.kernel.epollCtl fd op).1 = true := by
      intro op
      show v.kernel.sched.epollCtls.headD true = true
      cases hcalls : v.kernel.sched.epollCtls with
      | nil => rfl
      | cons ok rest =>
          rw [hcalls] at hepoll
          exact hepoll ok List.mem_cons_self
    rw [if_pos (hok _)]

end Turns

end World

/-! ## Runs -/

/-- What a call of `proxy_pump` or `proxy_begin` returns does not end the connection: the
slot waits for a socket, or the exchange is done. -/
def Served (x : Exchange) : Prop :=
  ∀ io, x.stage = .returned io → (io.yields = true ∨ io = .done) ∧
    ¬ (x.world.hc.phase = .writeFixed ∧ x.world.hc.fixed = RESP_502)

/-- No call fails in the step, the deadline is not over, and both peers keep to the
protocol. -/
def Calm (x : Exchange) : Action → Prop
  | .turn =>
      match x.stage with
      | .pumping _ b => Faultless x.world.kernel.sched ∧
          (0 < b → x.world.flush100.2.peersSound = true)
      | _ => True
  | .pump now _ => x.world.px.fd ≠ none ∧ now < x.world.hc.deadlineMs
  | .write _ _ => False

/-- The budget of a call runs out when the last byte of the request body is out. -/
def Exchange.Exhausts (x : Exchange) : Action → Prop
  | .turn =>
      match x.stage with
      | .pumping _ b => x.world.Exhausted b ∧ x.world.flush100.1 = .done
      | _ => False
  | _ => False

instance (x : Exchange) : ∀ a, Decidable (Calm x a)
  | .turn =>
      match h : x.stage with
      | .pumping _ b =>
          decidable_of_iff (Faultless x.world.kernel.sched ∧
            (0 < b → x.world.flush100.2.peersSound = true)) (by rw [Calm, h])
      | .returned _ => isTrue (by rw [Calm, h]; trivial)
      | .answered _ => isTrue (by rw [Calm, h]; trivial)
  | .pump now _ => decidable_of_iff (x.world.px.fd ≠ none ∧ now < x.world.hc.deadlineMs) Iff.rfl
  | .write _ _ => isFalse id

/-- The exchange of `w` can start: a new upstream connection is possible where the idle pool
has none. -/
structure CanStart (w : World) (addr : List UInt8) (len : Nat) : Prop where
  buffer : w.hc.buf.length ≤ 4096
  calls : Faultless w.kernel.sched
  socket : (proxyPoolTake w.pool addr len).1 = none → (w.kernel.socket addr).1 ≠ none
  timeout : 0 < w.hc.sendTimeoutMs

/-- What a run keeps to. -/
inductive ServeInv (x : Exchange) : Prop
  | pumping (now b : Nat) (hs : x.stage = .pumping now b) (h : x.world.Going)
  | waits (io : HttpIo) (hs : x.stage = .returned io) (hio : io.yields = true) (h : x.world.Going)
  | done (hs : x.stage = .returned .done) (hup : x.world.px.fd = none)
      (hphase : x.world.hc.phase = .read)
  | refused (hs : x.stage = .returned .wantWrite) (hup : x.world.px.fd = none)
      (hfixed : x.world.hc.fixed ∈ [RESP_405, RESP_411])

section Runs

variable {w : World} {x y : Exchange}

/-- The invariant gives the property. -/
theorem ServeInv.served (hi : ServeInv x) : Served x := by
  intro io hio
  cases hi with
  | pumping now b hs => cases hs.symm.trans hio
  | waits io' hs hyields h =>
      cases hs.symm.trans hio
      refine ⟨Or.inl hyields, fun hbad => ?_⟩
      cases h.client.symm.trans hbad.1
  | done hs hup hphase =>
      cases hs.symm.trans hio
      exact ⟨Or.inr rfl, fun hbad => by cases hphase.symm.trans hbad.1⟩
  | refused hs hup hfixed =>
      cases hs.symm.trans hio
      refine ⟨Or.inl rfl, fun hbad => ?_⟩
      rw [hbad.2] at hfixed
      exact absurd hfixed (by decide)

/-- One turn. -/
theorem ServeInv.turn {now b : Nat} (hs : x.stage = .pumping now b) (hg : x.world.Going)
    (hcalm : Calm x .turn) (hmore : ¬ x.Exhausts .turn) (h : x.turn now b = some y) :
    ServeInv y := by
  unfold Calm at hcalm
  unfold Exchange.Exhausts at hmore
  rw [hs] at hcalm hmore
  obtain ⟨hf, hpeers⟩ := hcalm
  obtain ⟨⟨hfail, hclose⟩, hphase, hepoll⟩ := World.pumpTurn_serves now hf hg.phase hpeers
    fun hdone hex => hmore ⟨hex, hdone⟩
  have hturn : World.TurnHolds x.world (x.world.pumpTurn now b) := World.pumpTurn_holds hg.up
  unfold Exchange.turn at h
  rcases hr : x.world.pumpTurn now b with ⟨v, e⟩
  rw [hr] at h hfail hclose hphase hepoll hturn
  have hgoing : v.Going := ⟨hturn.up hfail, hphase, hturn.phase.trans hg.client⟩
  cases e with
  -- Another turn of the pump.
  | again c =>
      rw [← Option.some.inj h]
      exact .pumping now c rfl hgoing
  | fail => exact absurd rfl hfail
  | close => exact absurd rfl hclose
  | ret io =>
      rw [← Option.some.inj h]
      exact .waits io rfl hturn.yields hgoing
  | done =>
      rw [← Option.some.inj h]
      obtain ⟨-, -, hread, -⟩ := proxyDone_released v
      exact .done rfl (World.proxyDone_fd v) (hread.trans hgoing.client)
  -- The pump yields: `epoll_ctl` does not fail, so both sides are armed.
  | yield u c =>
      have harm : (v.armUp u).1 = true := World.armUp_faultless hgoing.up hepoll
      obtain ⟨hrel, hresult⟩ := yieldUp_relay v u c
      have hlast : (v.yieldUp u c).2.Going := by
        refine ⟨(congrArg Relay.up hrel).trans hgoing.up, ?_,
          (congrArg Relay.clientPhase hrel).trans hgoing.client⟩
        have hcore : (v.yieldUp u c).2.px.phase = v.px.phase :=
          congrArg (fun d : Relay => d.px.phase) hrel
        rw [hcore]
        exact hphase
      obtain ⟨⟨io, u'⟩, hleave, rfl⟩ := Option.map_eq_some_iff.1 h
      unfold World.leave at hleave
      simp only at hleave
      split at hleave
      · rename_i hnone
        unfold World.yieldUp at hnone
        rw [if_neg (by rw [harm]; nofun)] at hnone
        split at hnone
        · cases hnone
        · cases hnone
      -- What it returns is the client's wait, or the upstream's when nothing is waited for there.
      · rename_i io' hio
        obtain ⟨rfl, rfl⟩ := Prod.mk.inj (Option.some.inj hleave)
        refine .waits _ rfl ?_ hlast
        rw [hio] at hresult
        rcases hresult with hnone | hwrite | hclient
        · cases hnone
        · rw [Option.some.inj hwrite]
          rfl
        · rw [Option.some.inj hclient]
          exact hturn.yields

/-- The step lemma. -/
theorem ServeInv.step {a : Action} (hi : ServeInv x) (hcalm : Calm x a) (hmore : ¬ x.Exhausts a)
    (h : x.step a = some y) : ServeInv y := by
  cases a with
  | turn =>
      rw [Exchange.step] at h
      cases hi with
      | pumping now b hs hg =>
          rw [hs] at h
          exact .turn hs hg hcalm hmore h
      | waits io hs => rw [hs] at h; cases h
      | done hs => rw [hs] at h; cases h
      | refused hs => rw [hs] at h; cases h
  | pump now sched =>
      obtain ⟨hup, hdue⟩ := hcalm
      rw [Exchange.step] at h
      cases hi with
      | pumping now' b hs hg => rw [hs] at h; cases h
      | waits io hs hio hg =>
          rw [hs] at h
          rw [← Option.some.inj h]
          have hentry : (x.world.withSched sched).pumpEntry now = none := by
            unfold World.pumpEntry
            exact (if_neg hup).trans (if_neg (not_le.2 hdue))
          unfold enter
          rw [hentry]
          exact .pumping now _ rfl ⟨hg.up, hg.phase, hg.client⟩
      | done hs hnone => exact absurd hnone hup
      | refused hs hnone => exact absurd hnone hup
  | write now sched => exact hcalm.elim

/-- A budget that runs out there ends the exchange. -/
theorem not_served_of_exhausts {a : Action} (hex : x.Exhausts a) (h : x.step a = some y) :
    ¬ Served y := by
  cases a with
  | pump => exact hex.elim
  | write => exact hex.elim
  | turn =>
      rw [Exchange.step] at h
      unfold Exchange.Exhausts at hex
      split at h
      · rename_i now b hs
        rw [hs] at hex
        obtain ⟨hex, hdone⟩ := hex
        have hturn : x.world.pumpTurn now b = (x.world.flush100.2, .fail) := by
          unfold World.pumpTurn
          simp only [hdone, hex.1, if_true]
          exact congrArg _ (World.budgetExit_exhausted ((World.flush100_exhausted _ b).2 hex))
        unfold Exchange.turn at h
        rw [hturn] at h
        have hy : ⟨(x.world.flush100.2.proxyFail now).2,
            .returned (x.world.flush100.2.proxyFail now).1⟩ = y := Option.some.inj h
        rw [← hy]
        intro hserved
        obtain ⟨hio, hbad⟩ := hserved _ rfl
        unfold World.proxyFail at hio hbad
        simp only at hio hbad
        split at hio
        · rcases hio with hio | hio
          · cases hio
          · cases hio
        · rename_i hsent
          simp only [if_neg hsent] at hbad
          exact hbad ⟨rfl, rfl⟩
      · cases h

/-- A call of `connect` that is not going to fail. -/
theorem connect_alive {k : Kernel} (h : ∀ r ∈ k.sched.connects, r ≠ .error) (fd : Nat)
    (addr : List UInt8) : (k.connect fd addr).1 ≠ .error := by
  show k.sched.connects.headD .inProgress ≠ .error
  cases hcalls : k.sched.connects with
  | nil => exact nofun
  | cons r rest =>
      rw [hcalls] at h
      exact h r List.mem_cons_self

/-- With a socket at hand the exchange is on. -/
theorem enter_beginOn (v : World) (fd : Nat) (reused : Bool) (now : Nat) (hphase : v.hc.phase = .read)
    (hcalls : ∀ r ∈ v.kernel.sched.connects, r ≠ .error) (htime : 0 < v.hc.sendTimeoutMs) :
    ∃ u, v.beginOn fd reused now = .ok u ∧ ServeInv (enter now u) := by
  unfold World.beginOn
  extract_lets p f v₁ v₂ c v₃ h
  have hrel : v₂.relay = v₁.relay := by
    show (if v₁.hasBody then v₁.corkUp true else v₁).relay = v₁.relay
    split
    · exact v₁.corkUp_relay true
    · rfl
  have hframe : v₂.hc = v.hc ∧ v₂.kernel.sched.connects = v.kernel.sched.connects := by
    show (if v₁.hasBody then v₁.corkUp true else v₁).hc = v.hc ∧
      (if v₁.hasBody then v₁.corkUp true else v₁).kernel.sched.connects = _
    split
    · obtain ⟨hhc, hconnects, -⟩ := World.corkUp_frame v₁ true
      exact ⟨hhc, hconnects⟩
    · exact ⟨rfl, rfl⟩
  obtain ⟨hhc, hconnects⟩ := hframe
  have halive : c.1 ≠ .error := by
    show (if reused = true then (ConnectResult.connected, v₂.kernel)
      else v₂.kernel.connect fd v₂.px.upAddr).1 ≠ .error
    split
    · exact nofun
    · apply connect_alive
      rw [hconnects]
      exact hcalls
  rw [if_neg halive]
  refine ⟨_, rfl, ?_⟩
  have hup : v₂.px.fd.isSome = true := congrArg Relay.up hrel
  have hsend : v₂.px.phase = .sendReq := congrArg (fun d : Relay => d.px.phase) hrel
  have hread : v₂.hc.phase = .read := (congrArg HttpConn.phase hhc).trans hphase
  unfold enter World.pumpEntry
  rw [if_neg (fun hnone : v₂.px.fd = none => by rw [hnone] at hup; cases hup)]
  have hlate : ¬ now + v₂.hc.sendTimeoutMs ≤ now := by
    rw [hhc]
    omega
  rw [if_neg hlate]
  refine .pumping now _ rfl ⟨hup, ?_, hread⟩
  show v₂.px.phase ≠ .none
  rw [hsend]
  exact nofun

/-- The start of an exchange: a 405, a 411, or a first call of `proxy_pump`. -/
theorem beginExchange_serves {addr : List UInt8} {len : Nat} (hw : Begins w)
    (hstart : CanStart w addr len) (now : Nat) : ServeInv (beginExchange w addr len now) := by
  unfold beginExchange World.proxySetup
  simp only
  by_cases hmethod : w.hc.req.method ≠ .get ∧ w.hc.req.method ≠ .head ∧ w.hc.req.method ≠ .post
  · rw [if_pos hmethod]
    exact .refused rfl hw.idle (List.mem_cons_self ..)
  rw [if_neg hmethod]
  by_cases hpost : w.hc.req.method = .post ∧ (!w.hc.req.flags.contentLength) = true
  · rw [if_pos hpost]
    exact .refused rfl hw.idle (List.mem_cons_of_mem _ (List.mem_cons_self ..))
  rw [if_neg hpost]
  -- what the parser accepts can be written again
  obtain ⟨hd, hacc⟩ := exists_head_of_accept hw.parsed
  rw [rewriteRequest_accepted hacc (hacc.headerBytes_le.trans hstart.buffer)]
  generalize (forwardedHead hd).render = hdr
  simp only
  rcases htake : proxyPoolTake w.pool addr len with ⟨_ | fd, pool⟩
  · have hsome := hstart.socket (by rw [htake])
    cases hsock : (w.kernel.socket addr).1 with
    | none => exact absurd hsock hsome
    | some fd =>
        simp only
        obtain ⟨u, hu, hinv⟩ := enter_beginOn { w with
          wrapped := w.wrapped || decide (World.bodyNeed w.hc < World.bodyHave w.hc)
          px := w.beginConn addr len hdr
          kernel := (w.kernel.socket addr).2 } fd false now hw.phase hstart.calls.connects
            hstart.timeout
        rw [hu]
        exact hinv
  · simp only
    obtain ⟨u, hu, hinv⟩ := enter_beginOn { w with
      wrapped := w.wrapped || decide (World.bodyNeed w.hc < World.bodyHave w.hc)
      px := w.beginConn addr len hdr
      pool := pool } fd true now hw.phase hstart.calls.connects hstart.timeout
    rw [hu]
    exact hinv

end Runs

/-- In a run in which no call fails, the deadline is not over and both peers keep to the
protocol, no result of `proxy_begin` or `proxy_pump` is a 502 or a close exactly when no
budget is spent at the moment the last byte of the request body is out. -/
theorem served_iff {w : World} {addr : List UInt8} {len now : Nat} {as : List Action}
    (hw : Begins w) (hstart : CanStart w addr len)
    (hcalm : AllSteps Exchange.step Calm (beginExchange w addr len now) as) :
    (∀ x ∈ runStates Exchange.step (beginExchange w addr len now) as, Served x) ↔
      AllSteps Exchange.step (fun x a => ¬ x.Exhausts a) (beginExchange w addr len now) as :=
  forall_runStates_iff_within (fun _ => ServeInv.served)
    (fun _ _ _ hi hok hgood h => hi.step hok hgood h)
    (fun _ _ _ _ _ hbad h => not_served_of_exhausts (not_not.1 hbad) h)
    (beginExchange_serves hw hstart now) hcalm

/-- A POST of eight bytes. One is in the header buffer, the client sends the others one by
one. -/
def bytewisePost : World :=
  readySlot (cstr "POST / HTTP/1.0\r\nContent-Length: 8\r\n\r\na") []
    { Schedule.quiet with
      sockets := [some 5]
      connects := [.connected]
      clientReads := List.replicate 7 (.data (cstr "b"))
      upstreamSends := List.replicate 9 (.sent 99) }

/-- The exchange of the counterexample can start. -/
theorem bytewisePost_starts : CanStart bytewisePost [1] 1 where
  buffer := by decide
  calls := by decide
  socket := fun _ => by decide
  timeout := by decide

/-- The first sixteen turns spend the budget. -/
theorem served_iff_bytewise :
    (∀ x ∈ runStates Exchange.step (beginExchange bytewisePost [1] 1 0) (List.replicate 16 .turn),
      Served x) ↔ AllSteps Exchange.step (fun x a => ¬ x.Exhausts a)
        (beginExchange bytewisePost [1] 1 0) (List.replicate 16 .turn) :=
  served_iff (readySlot_begins (by decide)) bytewisePost_starts (by decide)

/-- The sixteen calls that moved bytes are one for the head, one for the buffered byte and
two for each of the seven others. The turn after them answers 502. -/
theorem bytewisePost_fails : Begins bytewisePost ∧ CanStart bytewisePost [1] 1 ∧
    AllSteps Exchange.step Calm (beginExchange bytewisePost [1] 1 0) (List.replicate 17 .turn) ∧
      ∃ x ∈ runStates Exchange.step (beginExchange bytewisePost [1] 1 0) (List.replicate 17 .turn),
        ¬ Served x := by
  refine ⟨readySlot_begins (by decide), bytewisePost_starts, by decide, ?_⟩
  have h : (runTo Exchange.step (beginExchange bytewisePost [1] 1 0)
      (List.replicate 17 .turn)).map (fun x => (x.stage, x.world.hc.phase, x.world.hc.fixed)) =
      some (.returned .wantWrite, .writeFixed, RESP_502) := by
    decide
  obtain ⟨x, hx, heq⟩ := Option.map_eq_some_iff.1 h
  obtain ⟨hstage, hrest⟩ := Prod.mk.inj heq
  refine ⟨x, runTo_mem hx, fun hserved => ?_⟩
  exact (hserved _ hstage).2 (Prod.mk.inj hrest)

end TinyServer.Proxy
