import TinyServer.Proxy.Client
import TinyServer.Proxy.Ends
import TinyServer.Proxy.Upstream

/-!
# What a call leaves of an exchange

`http.c` and `worker.c` see an exchange one call at a time. `Underway w head d` says that the
relay state `d` belongs to the exchange that the slot `w` started with the rewritten head
`head`, and `Leaves` lists what a call of `proxy_begin` or `proxy_pump` leaves of it. It says
nothing of the runs between the calls, so that a worker which interleaves many slots can keep
it for each of them.
-/

set_option autoImplicit false

namespace TinyServer.Proxy

open TinyServer.Http TinyServer.Net TinyServer.Lib

/-- The moves of the exchange that `w` started lead to `d`. -/
structure Underway (w : World) (head : List UInt8) (d : Relay) : Prop where
  begins : Begins w
  reached : ∃ d₀, Starts w head d₀ ∧ Moves True d₀ d

section Underway

variable {w v : World} {head : List UInt8} {d : Relay}

/-- An exchange goes on. -/
theorem Underway.trans {e : Relay} (h : Underway w head d) (hm : Moves True d e) :
    Underway w head e := by
  obtain ⟨d₀, hs, hm₀⟩ := h.reached
  exact ⟨h.begins, d₀, hs, hm₀.trans hm⟩

/-- What stays as it was when the exchange started. -/
theorem Underway.frame (h : Underway w head d) :
    d.up = true ∧ d.clientPhase = .read ∧ d.req = w.hc.req ∧ d.input = w.hc.buf := by
  obtain ⟨d₀, hs, hm⟩ := h.reached
  have hf := hm.frame
  exact ⟨hf.up hs.up, hf.clientPhase.trans hs.clientPhase, hf.req.trans hs.req,
    hf.input.trans hs.input⟩

/-- The offsets of an exchange stay in their buffers. -/
theorem Underway.bounds (h : Underway w head d) : Bounds d := by
  obtain ⟨d₀, hs, hm⟩ := h.reached
  exact hm.bounds (hs.bounds h.begins)

/-- The invariant about the client holds of an exchange. -/
theorem Underway.clientInv (h : Underway w head d) : ClientInv (contOf w) d := by
  obtain ⟨d₀, hs, hm⟩ := h.reached
  exact hs.clientInv.moves hm

/-- The invariant about the upstream holds of an exchange. -/
theorem Underway.upInv (h : Underway w head d) : UpInv True head d := by
  obtain ⟨d₀, hs, hm⟩ := h.reached
  exact (hs.upInv h.begins).moves hm

/-- The head of an exchange is that of its request. -/
theorem Underway.head_eq (h : Underway w head d) :
    rewriteRequest (w.hc.buf.take w.hc.req.headerBytes) = some head := by
  obtain ⟨d₀, hs, -⟩ := h.reached
  exact hs.head_eq

/-- A request without a body takes nothing from the client. -/
theorem Underway.clientIn_nil (h : Underway w head d) (hneed : d.need = 0) : d.clientIn = [] := by
  have hle := h.upInv.body.read_le
  exact List.eq_nil_of_length_eq_zero (by omega)

end Underway

/-! ## A fixed answer is not kept -/

namespace World

/-- A response of the proxy's own does not keep the client. -/
def Mute (w : World) : Prop := w.hc.phase = .read ∨ w.hc.keep = false

section Mute

variable {w v : World} {now : Nat}

theorem Mute.of_phase (h : w.hc.phase = .read) : w.Mute := .inl h

theorem armFixed_mute (w : World) (resp : List UInt8) (status now : Nat) :
    (w.armFixed resp status now).Mute := .inr rfl

/-- A 502 does not keep the client. -/
theorem proxyFail_mute (now : Nat) (hread : w.hc.phase = .read) : (w.proxyFail now).2.Mute := by
  have hphase : w.proxyClose.hc.phase = .read := by
    rw [(proxyClose_released w).2]
    exact hread
  unfold proxyFail
  extract_lets sent w₁
  split
  · exact .inl hphase
  · exact armFixed_mute w₁ RESP_502 502 now

/-- A turn that returns does not keep the client with an answer of its own. -/
theorem leave_mute {e : Exit} {io : HttpIo} (hread : w.hc.phase = .read)
    (h : w.leave now e = some (io, v)) : v.Mute := by
  have result : ∀ {r : HttpIo × World}, some r = some (io, v) → r.2.Mute → v.Mute := by
    intro r hr hm
    cases hr
    exact hm
  cases e with
  | again c => cases h
  | yield up client =>
      have hread' : (w.yieldUp up client).2.hc.phase = .read :=
        (congrArg Relay.clientPhase (yieldUp_relay w up client).1).trans hread
      rw [leave_yield_elim] at h
      cases hio : (w.yieldUp up client).1 with
      | none =>
          rw [hio] at h
          exact result h (proxyFail_mute now hread')
      | some io' =>
          rw [hio] at h
          exact result h (.inl hread')
  | fail => exact result h (proxyFail_mute now hread)
  | close => exact result h (.inl ((congrArg HttpConn.phase (proxyClose_released w).2).trans hread))
  | done => exact result h (.inl ((proxyDone_released w).2.2.1.trans hread))
  | ret io' => exact result h (.inl hread)

theorem pumpLoop_mute {io : HttpIo} (n : Nat) : ∀ {b : Nat} {w : World},
    w.px.fd.isSome = true → w.hc.phase = .read → pumpLoop now n b w = some (io, v) → v.Mute := by
  induction n with
  | zero =>
      intro _ _ _ _ h
      cases h
  | succ n ih =>
      intro b w hlive hread h
      have hturn : TurnHolds w (w.pumpTurn now b) := pumpTurn_holds hlive
      rw [pumpLoop] at h
      rcases hr : w.pumpTurn now b with ⟨u, e⟩
      rw [hr] at h hturn
      have hread' : u.hc.phase = .read := hturn.phase.trans hread
      split at h
      · rename_i heq
        cases heq
        exact ih (hturn.up (by rintro ⟨⟩)) hread' h
      · rename_i heq
        cases heq
        exact leave_mute hread' h

/-- Nor does a call of `proxy_pump`. -/
theorem proxyPump_mute {fuel : Nat} {io : HttpIo} (hread : w.hc.phase = .read)
    (h : w.proxyPump fuel now = some (io, v)) : v.Mute := by
  unfold proxyPump pumpEntry at h
  by_cases hfd : w.px.fd = none
  · rw [if_pos hfd] at h
    obtain ⟨-, rfl⟩ := Prod.mk.inj (Option.some.inj h)
    exact .inl hread
  rw [if_neg hfd] at h
  by_cases hdead : w.hc.deadlineMs ≤ now
  · rw [if_pos hdead] at h
    obtain ⟨-, rfl⟩ := Prod.mk.inj (Option.some.inj h)
    exact .inl ((congrArg HttpConn.phase (proxyClose_released w).2).trans hread)
  · rw [if_neg hdead] at h
    exact pumpLoop_mute fuel (Option.isSome_iff_ne_none.2 hfd) hread h

/-- What the start of an exchange leaves. -/
def StartMute : Except (HttpIo × World) World → Prop
  | .error r => r.2.Mute
  | .ok v => v.hc.phase = .read

theorem beginOn_mute (hread : w.hc.phase = .read) (fd : Nat) (reused : Bool) :
    StartMute (beginOn w fd reused now) := by
  unfold beginOn
  extract_lets src flags w₁ w₂ c w₃
  have hcork : w₂.hc.phase = .read := by
    unfold w₂
    split
    · exact (congrArg Relay.clientPhase (w₁.corkUp_relay true)).trans hread
    · exact hread
  split
  · exact proxyFail_mute now hcork
  · exact hcork

theorem proxySetup_mute (hread : w.hc.phase = .read) (addr : List UInt8) (len : Nat) :
    StartMute (proxySetup w addr len now) := by
  unfold proxySetup
  extract_lets req wrapped
  split
  · exact armFixed_mute w _ _ now
  split
  · exact armFixed_mute w _ _ now
  split
  · exact armFixed_mute _ _ _ now
  extract_lets w₁ s
  split
  · apply beginOn_mute
    exact hread
  split
  · exact armFixed_mute _ _ _ now
  · apply beginOn_mute
    exact hread

/-- Nor does a call of `proxy_begin`. -/
theorem proxyBegin_mute {fuel : Nat} {addr : List UInt8} {len : Nat} {io : HttpIo}
    (hread : w.hc.phase = .read) (h : w.proxyBegin fuel addr len now = some (io, v)) : v.Mute := by
  have hsetup : StartMute (w.proxySetup addr len now) := proxySetup_mute hread addr len
  unfold proxyBegin at h
  split at h
  · rename_i r hr
    rw [hr, Option.some.inj h] at hsetup
    exact hsetup
  · rename_i u hu
    rw [hu] at hsetup
    exact proxyPump_mute hsetup h

end Mute

end World

/-! ## What a call leaves -/

/-- Each upstream connection was sent part of the request that is owed to it. -/
def SentOwed (w v : World) : Prop :=
  ∀ c ∈ v.kernel.wire.conns, ∃ head,
    rewriteRequest (w.hc.buf.take w.hc.req.headerBytes) = some head ∧
      c.sent <+: head ++ owedBody w v.kernel.wire.clientIn

/-- Everything of the response is out. -/
structure Delivered (w v : World) : Prop where
  answer : Answered w ⟨v, .returned .done⟩
  clientIn : World.bodyNeed w.hc = 0 → v.kernel.wire.clientIn = []
  wrapped : v.wrapped = false

/-- A fixed answer is on its way, after a complete 100 Continue or nothing. -/
structure FixedWaits (v : World) : Prop where
  phase : v.hc.phase = .writeFixed
  keep : v.hc.keep = false
  fixed : v.hc.fixed ∈ [RESP_405, RESP_411, RESP_502]
  out : ∃ cont, (cont = [] ∨ cont = CONT_100) ∧
    v.kernel.wire.clientOut = cont ++ v.hc.fixed.take v.hc.fixedOff
  wrapped : v.wrapped = false

/-- What a call with the result `io` leaves of the exchange that `w` started. -/
inductive Leaves (w : World) : HttpIo → World → Prop
  | waits (io : HttpIo) (v : World) (head : List UInt8) (hio : io.yields = true)
      (h : Underway w head v.relay) : Leaves w io v
  | done (v : World) (hup : v.px.fd = none) (h : Delivered w v) : Leaves w .done v
  | close (v : World) (hup : v.px.fd = none) : Leaves w .close v
  | fixed (v : World) (hup : v.px.fd = none) (h : FixedWaits v) : Leaves w .wantWrite v

section Calls

variable {w v : World} {head : List UInt8} {d : Relay} {io : HttpIo} {now fuel : Nat}

/-- The connections of a relay state, and those that its end leaves. -/
theorem Underway.sentOwed (h : Underway w head d) (hconns : ConnsLeft d v.kernel.wire.conns)
    (hin : v.kernel.wire.clientIn = d.clientIn) : SentOwed w v := by
  obtain ⟨d₀, hs, hm⟩ := h.reached
  obtain ⟨hbody, -⟩ := hs.owedBody_eq hm
  intro c hc
  refine ⟨head, h.head_eq, ?_⟩
  rw [hin, ← hbody]
  rcases sent_of_connsLeft hconns c hc with hnil | ⟨c', hc', hsent⟩
  · rw [hnil]
    exact List.nil_prefix
  · rw [hsent]
    exact h.upInv.sent_prefix c' hc'

/-- The declared length of the body is that of the request. -/
theorem Underway.need_eq (h : Underway w head d) : d.need = World.bodyNeed w.hc := by
  obtain ⟨d₀, hs, hm⟩ := h.reached
  exact (hs.owedBody_eq hm).2

/-- The exchange has ended. -/
theorem leaves_of_over (h : Underway w head d) (ho : Over d ⟨v, .returned io⟩) (hmute : v.Mute) :
    Leaves w io v := by
  have hup : v.px.fd = none := ho.fd
  have hwrap : v.wrapped = false := ho.bounds.wrapped
  obtain ⟨-, -, hreq, -⟩ := h.frame
  cases ho.outcome with
  | done hstage hf hkeep hphase hconns hout =>
      obtain rfl : io = .done := Stage.returned.inj hstage
      refine .done v hup ⟨h.clientInv.answered hreq hf hkeep hconns hout, fun hneed => ?_, hwrap⟩
      have hin : v.kernel.wire.clientIn = d.clientIn := ho.clientIn
      rw [hin]
      exact h.clientIn_nil (h.need_eq.trans hneed)
  | closed hstage hphase hout =>
      obtain rfl : io = .close := Stage.returned.inj hstage
      exact .close v hup
  | failed hstage hsent h100 hphase hfixed hout =>
      rcases hstage with hstage | hstage | ⟨io', hstage⟩
      · obtain rfl : io = .wantWrite := Stage.returned.inj hstage
        obtain ⟨cont, hcont, hd⟩ := h.clientInv.unsent hsent h100
        have hphase : v.hc.phase = .writeFixed := hphase
        have hfixed : v.hc.fixed = RESP_502 := hfixed
        refine .fixed v hup ⟨hphase, ?_, ?_, ⟨cont, ?_, ?_⟩, hwrap⟩
        · apply hmute.resolve_left
          rw [hphase]
          rintro ⟨⟩
        · rw [hfixed]
          simp
        · -- a 100 Continue is owed or not
          unfold contOf at hcont
          rcases hcont with hnil | hcont
          · exact .inl hnil
          · split at hcont
            · exact .inr hcont
            · exact .inl hcont
        · rw [hfixed, ← hd]
          exact hout
      · obtain rfl : io = .close := Stage.returned.inj hstage
        exact .close v hup
      · cases hstage

/-- What a state of a run shows. -/
theorem leaves_of_trace (hw : Begins w) {d₀ : Relay} (hs : Starts w head d₀)
    (ht : Trace True d₀ ⟨v, .returned io⟩) (hmute : v.Mute) : Leaves w io v ∧ SentOwed w v := by
  cases ht with
  | live hm hlive =>
      have hon : Underway w head v.relay := ⟨hw, d₀, hs, hm⟩
      have hio : io.yields = true := hlive
      exact ⟨.waits io v head hio hon, hon.sentOwed (.inl rfl) rfl⟩
  | «over» d hm ho =>
      have hon : Underway w head d := ⟨hw, d₀, hs, hm⟩
      exact ⟨leaves_of_over hon ho hmute, hon.sentOwed ho.conns ho.clientIn⟩

/-- `proxy_pump` on a slot with an exchange. -/
theorem proxyPump_leaves {u : World} (hu : Underway w head u.relay)
    (h : u.proxyPump fuel now = some (io, v)) : Leaves w io v ∧ SentOwed w v := by
  obtain ⟨d₀, hs, hm⟩ := hu.reached
  have hread : u.hc.phase = .read := hu.frame.2.1
  have hb : Bounds d₀ := hs.bounds hu.begins
  have hentry : Trace True d₀ (enter now u) := enter_trace hb hs.up hm
  have htrace : Trace True d₀ ⟨v, .returned io⟩ := by
    unfold World.proxyPump at h
    unfold enter at hentry
    cases he : u.pumpEntry now with
    | some r =>
        rw [he] at h hentry
        cases h
        exact hentry
    | none =>
        rw [he] at h hentry
        refine AllSteps.invariant (I := Trace True d₀) ?_ hentry
          (.of_forall (fun _ _ => trivial) _ _) _ (pumpLoop_mem h)
        intro x a y hx _ hstep
        exact hx.step hb hs.up hs.clientPhase (fun _ => trivial) hstep
  exact leaves_of_trace hu.begins hs htrace (World.proxyPump_mute hread h)

/-- `proxy_begin`. -/
theorem proxyBegin_leaves (hw : Begins w) {addr : List UInt8} {len : Nat}
    (h : w.proxyBegin fuel addr len now = some (io, v)) : Leaves w io v ∧ SentOwed w v := by
  have hmute := World.proxyBegin_mute hw.phase h
  rcases trace_of_mem_all hw _ (proxyBegin_mem h) with hr | ⟨head, d₀, hs, ht⟩
  · have hphase : v.hc.phase = .writeFixed := hr.phase
    have hconns : v.kernel.wire.conns = [] := hr.conns
    have hkeep : v.hc.keep = false := by
      apply hmute.resolve_left
      rw [hphase]
      rintro ⟨⟩
    have hsent : SentOwed w v := by
      intro c hc
      rw [hconns] at hc
      cases hc
    refine ⟨?_, hsent⟩
    rcases hr.stage with hstage | hstage | ⟨io', hstage⟩
    · obtain rfl : io = .wantWrite := Stage.returned.inj hstage
      exact .fixed v hr.fd ⟨hphase, hkeep, hr.fixed, ⟨[], .inl rfl, hr.out⟩, hr.wrapped⟩
    · obtain rfl : io = .close := Stage.returned.inj hstage
      exact .close v hr.fd
    · cases hstage
  · exact leaves_of_trace hw hs ht hmute

end Calls

end TinyServer.Proxy
