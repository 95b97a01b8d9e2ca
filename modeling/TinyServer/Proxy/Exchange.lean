import TinyServer.Http.Accepted
import TinyServer.Lib.Run
import TinyServer.Proxy.Refine

/-!
# Runs of a proxied exchange

An exchange starts with `proxy_begin` and goes on with calls of `proxy_pump`, each
with socket results of its own, and of `http_conn_on_write` once a fixed answer is
armed. `Exchange.step` takes one turn of the loop of `proxy_pump` at a time, so a
run also shows the states inside a call.

Every state of a run traces back to relay moves (`trace_of_mem`): while the
exchange is on, the slot shows a relay state that moves reach; once it is over, the
state it was in before the slot was reset.
-/

set_option autoImplicit false

namespace TinyServer.Proxy

open TinyServer.Http TinyServer.Net TinyServer.Lib

/-- Inside a call of `proxy_pump`, or after `proxy_pump` (`returned`) or
`http_conn_on_write` (`answered`) gave a result. -/
inductive Stage where
  | pumping (now budget : Nat)
  | returned (io : HttpIo)
  | answered (io : HttpIo)
  deriving DecidableEq, Repr

/-- An exchange: the slot, and where its call stands. -/
structure Exchange where
  world : World
  stage : Stage
  deriving DecidableEq, Repr

/-- `pump` and `write` bring the results of the socket calls to come. -/
inductive Action where
  | turn
  | pump (now : Nat) (sched : Schedule)
  | write (now : Nat) (sched : Schedule)

/-- The same slot with other results of the calls to come. -/
def World.withSched (w : World) (sched : Schedule) : World :=
  { w with kernel := { w.kernel with sched := sched } }

/-- The start of a call of `proxy_pump`. -/
def enter (now : Nat) (w : World) : Exchange :=
  match w.pumpEntry now with
  | some (io, w) => ⟨w, .returned io⟩
  | none => ⟨w, .pumping now World.BUDGET⟩

/-- `proxy_begin` up to its first turn. -/
def beginExchange (w : World) (addr : List UInt8) (len now : Nat) : Exchange :=
  match w.proxySetup addr len now with
  | .error (io, w) => ⟨w, .returned io⟩
  | .ok w => enter now w

namespace Exchange

/-- One turn of the loop of `proxy_pump`. -/
def turn (x : Exchange) (now budget : Nat) : Option Exchange :=
  match x.world.pumpTurn now budget with
  | (w, .again b) => some ⟨w, .pumping now b⟩
  | (w, e) => (w.leave now e).map fun r => ⟨r.2, .returned r.1⟩

/-- `http_conn_on_write` for an armed fixed answer. -/
def write (x : Exchange) (now : Nat) (sched : Schedule) : Exchange :=
  let r := fixedOnWrite x.world.hc { x.world.kernel with sched := sched } now
  ⟨{ x.world with hc := r.2.1, kernel := r.2.2 }, .answered r.1⟩

/-- One step of a run. The worker writes only while it waits for a client that is
sent a fixed answer. -/
def step (x : Exchange) : Action → Option Exchange
  | .turn =>
      match x.stage with
      | .pumping now b => x.turn now b
      | _ => none
  | .pump now sched =>
      match x.stage with
      | .pumping _ _ => none
      | _ => some (enter now (x.world.withSched sched))
  | .write now sched =>
      if (x.stage = .returned .wantWrite ∨ x.stage = .answered .wantWrite) ∧
          x.world.hc.phase = .writeFixed then some (x.write now sched)
      else none

end Exchange

/-! ## A call is a run of turns -/

theorem Exchange.turn_again {w v : World} {now b c : Nat}
    (h : w.pumpTurn now b = (v, .again c)) :
    Exchange.turn ⟨w, .pumping now b⟩ now b = some ⟨v, .pumping now c⟩ := by
  unfold Exchange.turn
  rw [h]

/-- A turn that yields returns, or fails where the events cannot be armed. -/
theorem World.leave_yield_elim (v : World) (u c : HttpIo) (now : Nat) :
    v.leave now (.yield u c) = (v.yieldUp u c).1.elim
      (some ((v.yieldUp u c).2.proxyFail now)) fun io => some (io, (v.yieldUp u c).2) := by
  unfold World.leave
  dsimp only
  cases (v.yieldUp u c).1 <;> rfl

/-- A turn that leaves the loop. -/
theorem Exchange.turn_leave {w v : World} {now b : Nat} {e : Exit}
    (h : w.pumpTurn now b = (v, e)) (he : ∀ c, e ≠ .again c) :
    Exchange.turn ⟨w, .pumping now b⟩ now b =
      (v.leave now e).map fun r => ⟨r.2, .returned r.1⟩ := by
  unfold Exchange.turn
  rw [h]
  cases e with
  | again c => exact absurd rfl (he c)
  | _ => rfl

/-- What a call of `proxy_pump` returns is reached by turns. -/
theorem pumpLoop_mem {fuel now : Nat} : ∀ {b : Nat} {w v : World} {io : HttpIo},
    World.pumpLoop now fuel b w = some (io, v) →
      ⟨v, .returned io⟩ ∈ runStates Exchange.step ⟨w, .pumping now b⟩
        (List.replicate fuel .turn) := by
  induction fuel with
  | zero => exact nofun
  | succ fuel ih =>
      intro b w v io h
      rw [World.pumpLoop] at h
      rw [List.replicate_succ]
      have hstep : Exchange.step ⟨w, .pumping now b⟩ .turn =
          Exchange.turn ⟨w, .pumping now b⟩ now b := rfl
      rcases hr : w.pumpTurn now b with ⟨w₁, e⟩
      rw [hr] at h
      by_cases he : ∃ c, e = .again c
      · obtain ⟨c, rfl⟩ := he
        rw [Exchange.turn_again hr] at hstep
        exact runStates_cons_subset hstep _ (ih h)
      · have hne : ∀ c, e ≠ .again c := fun c hc => he ⟨c, hc⟩
        have hleave : w₁.leave now e = some (io, v) := by
          cases e with
          | again c => exact absurd rfl (hne c)
          | _ => exact h
        rw [Exchange.turn_leave hr hne, hleave] at hstep
        exact runStates_cons_subset hstep _ (mem_runStates_self _ _)

/-- What `proxy_begin` returns is a state of a run of turns. -/
theorem proxyBegin_mem {fuel now len : Nat} {w v : World} {addr : List UInt8} {io : HttpIo}
    (h : w.proxyBegin fuel addr len now = some (io, v)) :
    ⟨v, .returned io⟩ ∈ runStates Exchange.step (beginExchange w addr len now)
      (List.replicate fuel .turn) := by
  unfold World.proxyBegin at h
  unfold beginExchange
  cases hs : w.proxySetup addr len now with
  | error r =>
      rw [hs] at h
      cases h
      exact mem_runStates_self _ _
  | ok w₁ =>
      rw [hs] at h
      unfold World.proxyPump at h
      simp only at h
      simp only [enter]
      cases he : w₁.pumpEntry now with
      | some r =>
          rw [he] at h
          cases h
          exact mem_runStates_self _ _
      | none =>
          rw [he] at h
          exact pumpLoop_mem h

/-! ## The end of an exchange -/

/-- What the functions that end an exchange do to the slot. -/
structure Released (w v : World) : Prop where
  fd : v.px.fd = none
  input : v.hc.buf = w.hc.buf
  clientIn : v.kernel.wire.clientIn = w.kernel.wire.clientIn
  clientOut : v.kernel.wire.clientOut = w.kernel.wire.clientOut
  conns : v.kernel.wire.conns = w.kernel.wire.conns
  bounds : Bounds w.relay → Bounds v.relay

/-- A slot without an exchange is within bounds. -/
theorem reset_bounds {w v : World} (hpx : v.px.core = (proxyConnReset w.px).core)
    (hwrap : v.wrapped = w.wrapped) (hb : Bounds w.relay) : Bounds v.relay := by
  have hp : v.relay.px = (proxyConnReset w.px).core := hpx
  constructor
  case hdr_off => rw [hp]; exact le_rfl
  case hdr_len => rw [hp]; exact Nat.zero_le _
  case buf_off => rw [hp]; exact le_rfl
  case buf_len => rw [hp]; exact Nat.zero_le _
  case body_off => rw [hp]; exact le_rfl
  case body_end => rw [hp]; exact Nat.zero_le _
  case body_left => rw [hp]; exact Nat.two_pow_pos 32
  case chunk => rw [hp]; exact ChunkScan.start_valid
  case wrapped => exact hwrap.trans hb.wrapped

/-- `proxy_close` gives the upstream socket up. -/
theorem proxyClose_released (w : World) :
    Released w w.proxyClose ∧ w.proxyClose.hc = w.hc := by
  unfold World.proxyClose
  cases hfd : w.px.fd with
  | none => exact ⟨⟨hfd, rfl, rfl, rfl, rfl, id⟩, rfl⟩
  | some fd =>
      obtain ⟨sched, calls, he⟩ := w.detach_eq fd
      simp only [he]
      exact ⟨⟨rfl, rfl, rfl, rfl, rfl, fun hb => reset_bounds rfl rfl hb⟩, trivial⟩

/-- `proxy_release` puts it into the pool or gives it up. -/
theorem proxyRelease_released (w : World) (fd : Nat) :
    Released w (w.proxyRelease fd) ∧ (w.proxyRelease fd).hc = w.hc := by
  obtain ⟨sched, calls, he⟩ := w.detach_eq fd
  unfold World.proxyRelease
  simp only [he]
  split
  · exact ⟨⟨rfl, rfl, rfl, rfl, rfl, fun hb => reset_bounds rfl rfl hb⟩, rfl⟩
  · exact ⟨⟨rfl, rfl, rfl, rfl, rfl, fun hb => reset_bounds rfl rfl hb⟩, rfl⟩

/-- `proxy_done` does either, and keeps the client if the response says so. -/
theorem proxyDone_released (w : World) :
    Released w w.proxyDone.2 ∧ w.proxyDone.1 = .done ∧ w.proxyDone.2.hc.phase = w.hc.phase ∧
      w.proxyDone.2.hc.keep = w.px.flags.clientKeep := by
  have hrel := w.corkClient_relay false
  have hpx := w.corkClient_px false
  unfold World.proxyDone
  simp only
  set v := w.corkClient false with hv
  have hin : v.hc.buf = w.hc.buf := congrArg Relay.input hrel
  have hph : v.hc.phase = w.hc.phase := congrArg Relay.clientPhase hrel
  have hci : v.kernel.wire.clientIn = w.kernel.wire.clientIn := congrArg Relay.clientIn hrel
  have hco : v.kernel.wire.clientOut = w.kernel.wire.clientOut := congrArg Relay.clientOut hrel
  have hcs : v.kernel.wire.conns = w.kernel.wire.conns := congrArg Relay.conns hrel
  have key : ∀ u : World, Released v u ∧ u.hc = v.hc →
      Released w { u with hc := { u.hc with
        keep := w.px.flags.clientKeep
        statusCode := if w.px.status ≠ 0 then w.px.status else 200 } } ∧ u.hc.phase = w.hc.phase := by
    rintro u ⟨hr, hu⟩
    refine ⟨⟨hr.fd, ?_, hr.clientIn.trans hci, hr.clientOut.trans hco, hr.conns.trans hcs, ?_⟩, ?_⟩
    · exact hr.input.trans hin
    · intro hb
      have hbu := hr.bounds (by rw [hrel]; exact hb)
      exact hbu.congr rfl rfl rfl
    · rw [hu]
      exact hph
  split
  · split
    · obtain ⟨h1, h2⟩ := key _ (proxyRelease_released v _)
      exact ⟨h1, trivial, h2, trivial⟩
    · obtain ⟨h1, h2⟩ := key _ (proxyClose_released v)
      exact ⟨h1, trivial, h2, trivial⟩
  · obtain ⟨h1, h2⟩ := key _ (proxyClose_released v)
    exact ⟨h1, trivial, h2, trivial⟩

/-- What `proxy_fail` leaves: a 502 armed, unless part of a response went out. -/
theorem proxyFail_released (w : World) (now : Nat) :
    Released w (w.proxyFail now).2 ∧
      ((w.px.flags.respSent = true ∧ (w.proxyFail now).1 = .close ∧
          (w.proxyFail now).2.hc.phase = w.hc.phase) ∨
        (w.px.flags.respSent = false ∧ (w.proxyFail now).1 = .wantWrite ∧
          (w.proxyFail now).2.hc.phase = .writeFixed ∧ (w.proxyFail now).2.hc.fixed = RESP_502 ∧
          (w.proxyFail now).2.hc.fixedOff = 0)) := by
  obtain ⟨hr, hhc⟩ := proxyClose_released w
  unfold World.proxyFail
  simp only
  split
  · rename_i hsent
    exact ⟨hr, Or.inl ⟨hsent, rfl, congrArg HttpConn.phase hhc⟩⟩
  · rename_i hsent
    refine ⟨⟨hr.fd, hr.input, hr.clientIn, hr.clientOut, hr.conns, fun hb => ?_⟩,
      Or.inr ⟨by simpa using hsent, rfl, rfl, rfl, rfl⟩⟩
    exact (hr.bounds hb).congr rfl rfl rfl

/-- How an exchange ended, for the last relay state `d`. -/
inductive Outcome (d : Relay) : Exchange → Prop
  | done {x : Exchange} (hstage : x.stage = .returned .done) (hf : Finished d)
      (hkeep : x.world.hc.keep = d.px.flags.clientKeep) (hphase : x.world.hc.phase = d.clientPhase)
      (hconns : x.world.kernel.wire.conns = d.conns)
      (hout : x.world.kernel.wire.clientOut = d.clientOut) : Outcome d x
  | closed {x : Exchange} (hstage : x.stage = .returned .close)
      (hphase : x.world.hc.phase = d.clientPhase)
      (hout : x.world.kernel.wire.clientOut = d.clientOut) : Outcome d x
  | failed {x : Exchange} (hstage : x.stage = .returned .wantWrite ∨ x.stage = .returned .close ∨
        ∃ io, x.stage = .answered io)
      (hsent : d.px.flags.respSent = false)
      (h100 : d.px.flags.send100 = false ∨ d.clientOut = []) (hphase : x.world.hc.phase = .writeFixed)
      (hfixed : x.world.hc.fixed = RESP_502)
      (hout : x.world.kernel.wire.clientOut =
        d.clientOut ++ RESP_502.take x.world.hc.fixedOff) : Outcome d x

/-- The exchange is over. -/
structure Over (d : Relay) (x : Exchange) : Prop where
  fd : x.world.px.fd = none
  clientIn : x.world.kernel.wire.clientIn = d.clientIn
  conns : ConnsLeft d x.world.kernel.wire.conns
  bounds : Bounds x.world.relay
  outcome : Outcome d x

/-- The exchange is on. -/
def Stage.Live : Stage → Prop
  | .pumping _ _ => True
  | .returned io => io.yields = true
  | .answered _ => False

/-- What a state of a run shows of the moves made from `d₀`. -/
inductive Trace (resend : Prop) (d₀ : Relay) (x : Exchange) : Prop
  | live (hm : Moves resend d₀ x.world.relay) (hs : x.stage.Live)
  | over (d : Relay) (hm : Moves resend d₀ d) (ho : Over d x)

/-- What no move changes. -/
structure MoveFrame (d e : Relay) : Prop where
  up : d.up = true → e.up = true
  clientPhase : e.clientPhase = d.clientPhase
  req : e.req = d.req
  input : e.input = d.input

/-- What a move leaves alone. -/
theorem Move.frame {resend : Prop} {d e : Relay} (h : Move resend d e) : MoveFrame d e := by
  cases h with
  | reopen fd hphase hreused hoff => exact ⟨fun _ => rfl, rfl, rfl, rfl⟩
  | retryIdle fd hphase hreused hsent hbuf hmethod hbody => exact ⟨fun _ => rfl, rfl, rfl, rfl⟩
  | finalHead _ i px hphase hend hfinal htake =>
      unfold Relay.takeHead at htake
      simp only at htake
      split at htake
      · rw [← Option.some.inj htake]
        exact ⟨id, rfl, rfl, rfl⟩
      · obtain ⟨px₂, -, rfl⟩ := Option.map_eq_some_iff.1 htake
        exact ⟨id, rfl, rfl, rfl⟩
  | _ => exact ⟨id, rfl, rfl, rfl⟩

/-- What some moves leave alone. -/
theorem Moves.frame {resend : Prop} {d e : Relay} (h : Moves resend d e) : MoveFrame d e := by
  induction h with
  | refl => exact ⟨id, rfl, rfl, rfl⟩
  | tail _ hm ih =>
      have hf := hm.frame
      exact ⟨fun h => hf.up (ih.up h), hf.clientPhase.trans ih.clientPhase, hf.req.trans ih.req,
        hf.input.trans ih.input⟩

section Steps

variable {d : Relay} {w : World}

/-- An exchange that is closed is over. -/
theorem closed_over (hl : Left d w) : Over d ⟨w.proxyClose, .returned .close⟩ := by
  obtain ⟨hr, hhc⟩ := proxyClose_released w
  have hc := hr.conns
  refine ⟨hr.fd, hr.clientIn.trans hl.clientIn, ?_, hr.bounds hl.bounds,
    .closed rfl ((congrArg HttpConn.phase hhc).trans hl.clientPhase)
      (hr.clientOut.trans hl.clientOut)⟩
  rw [hc]
  exact hl.conns

/-- An exchange that failed is over. -/
theorem failed_over {now : Nat} (hl : Left d w)
    (hsent : w.px.flags.respSent = d.px.flags.respSent)
    (h100 : d.px.flags.send100 = false ∨ d.clientOut = []) :
    Over d ⟨(w.proxyFail now).2, .returned (w.proxyFail now).1⟩ := by
  obtain ⟨hr, hcases⟩ := proxyFail_released w now
  have hc := hr.conns
  refine ⟨hr.fd, hr.clientIn.trans hl.clientIn, by rw [hc]; exact hl.conns,
    hr.bounds hl.bounds, ?_⟩
  have hout := hr.clientOut.trans hl.clientOut
  rcases hcases with ⟨-, hio, hphase⟩ | ⟨hs, hio, hphase, hfixed, hoff⟩
  · exact .closed (by rw [hio]) (hphase.trans hl.clientPhase) hout
  · refine .failed (Or.inl (by rw [hio])) (hsent.symm.trans hs) h100 hphase hfixed ?_
    show (w.proxyFail now).2.kernel.wire.clientOut = _
    rw [hoff, List.take_zero, List.append_nil]
    exact hout

/-- An exchange that is finished is over. -/
theorem done_over (hf : Finished w.relay) (hb : Bounds w.relay) :
    Over w.relay ⟨w.proxyDone.2, .returned w.proxyDone.1⟩ := by
  obtain ⟨hr, hio, hphase, hkeep⟩ := proxyDone_released w
  refine ⟨hr.fd, hr.clientIn, Or.inl hr.conns, hr.bounds hb, ?_⟩
  exact .done (by rw [hio]) hf hkeep hphase hr.conns hr.clientOut

/-- To yield moves nothing. -/
theorem yieldUp_relay (w : World) (u c : HttpIo) : (w.yieldUp u c).2.relay = w.relay ∧
    ((w.yieldUp u c).1 = none ∨ (w.yieldUp u c).1 = some .wantWrite ∨
      (w.yieldUp u c).1 = some c) := by
  have hrel := w.armUp_relay u
  unfold World.yieldUp
  simp only
  split
  · exact ⟨hrel, Or.inl rfl⟩
  split
  · exact ⟨hrel, Or.inr (Or.inl rfl)⟩
  · exact ⟨hrel, Or.inr (Or.inr rfl)⟩

end Steps

/-- One turn of the pump. -/
theorem Trace.turn {resend : Prop} {d₀ : Relay} {w : World} {now b : Nat} {y : Exchange}
    (hb : Bounds d₀) (hm : Moves resend d₀ w.relay) (hres : w.TurnLosesBody b → resend) (h : Exchange.turn ⟨w, .pumping now b⟩ now b = some y) :
    Trace resend d₀ y := by
  obtain ⟨d, hms, ha, h100⟩ := pumpTurn_refines now b (hm.bounds hb) hres
  rcases hr : w.pumpTurn now b with ⟨v, e⟩
  rw [hr] at ha h100
  have hmd : Moves resend d₀ d := hm.trans hms
  have hbd : Bounds d := hmd.bounds hb
  cases e with
  -- The pump goes round again: the stage stays.
  | again c =>
      rw [Exchange.turn_again hr] at h
      cases h
      have hrel : v.relay = d := ha
      exact .live (by rw [hrel]; exact hmd) trivial
  -- It yields, and what it waits for must be armed first.
  | yield u c =>
      rw [Exchange.turn_leave hr (by rintro _ ⟨⟩)] at h
      obtain ⟨hrel, hc⟩ := ha
      obtain ⟨hy, hio⟩ := yieldUp_relay v u c
      have h100' : d.px.flags.send100 = false := by
        rcases h100 with h | h | h
        · cases h
        · cases h
        · exact h
      have hyd : (v.yieldUp u c).2.relay = d := hy.trans hrel
      rw [World.leave_yield_elim] at h
      rcases hio with hio | hio | hio <;> rw [hio] at h <;> cases h
      · -- `epoll_ctl` failed.
        refine .over d hmd (failed_over (.of_relay hyd hbd) ?_ (Or.inl h100'))
        exact congrArg (fun e : Relay => e.px.flags.respSent) hyd
      · exact .live (by rw [hyd]; exact hmd) rfl
      · exact .live (by rw [hyd]; exact hmd) hc
  -- An exchange that fails does so without `100 Continue` pending.
  | fail =>
      rw [Exchange.turn_leave hr (by rintro _ ⟨⟩)] at h
      cases h
      have h100' : d.px.flags.send100 = false := by
        rcases h100 with h | h | h
        · cases h
        · cases h
        · exact h
      exact .over d hmd (failed_over ha.1 ha.2 (Or.inl h100'))
  | close =>
      rw [Exchange.turn_leave hr (by rintro _ ⟨⟩)] at h
      cases h
      exact .over d hmd (closed_over ha)
  | done =>
      rw [Exchange.turn_leave hr (by rintro _ ⟨⟩)] at h
      cases h
      obtain ⟨rfl, hf⟩ := ha
      exact .over _ hmd (done_over hf hbd)
  | ret io =>
      rw [Exchange.turn_leave hr (by rintro _ ⟨⟩)] at h
      cases h
      obtain ⟨hrel, hc⟩ := ha
      exact .live (by rw [hrel]; exact hmd) hc

/-- A call of `proxy_pump`, for a slot on which the exchange is on. -/
theorem enter_trace {resend : Prop} {d₀ : Relay} {w : World} {now : Nat} (hb : Bounds d₀)
    (hup : d₀.up = true) (hm : Moves resend d₀ w.relay) : Trace resend d₀ (enter now w) := by
  unfold enter World.pumpEntry
  by_cases hfd : w.px.fd = none
  · have hnone : w.relay.up = true := hm.frame.up hup
    unfold World.relay at hnone
    rw [hfd] at hnone
    cases hnone
  rw [if_neg hfd]
  by_cases hd : w.hc.deadlineMs ≤ now
  · rw [if_pos hd]
    exact .over _ hm (closed_over (.of_relay rfl (hm.bounds hb)))
  · rw [if_neg hd]
    exact .live hm trivial

/-- A call of `proxy_pump` after the end of the exchange, as a late event of the
upstream socket brings it, only returns `close`. -/
theorem enter_over {d : Relay} {x : Exchange} {now : Nat} {sched : Schedule} (ho : Over d x) :
    Over d (enter now (x.world.withSched sched)) := by
  have hfd : (x.world.withSched sched).px.fd = none := ho.fd
  unfold enter World.pumpEntry
  rw [if_pos hfd]
  refine ⟨ho.fd, ho.clientIn, ho.conns, ho.bounds, ?_⟩
  cases ho.outcome with
  | done hstage hf hkeep hphase hconns hout => exact .closed rfl hphase hout
  | closed hstage hphase hout => exact .closed rfl hphase hout
  | failed hstage hsent h100 hphase hfixed hout =>
      exact .failed (Or.inr (Or.inl rfl)) hsent h100 hphase hfixed hout

/-- `http_conn_on_write` goes on with the fixed answer. -/
theorem write_out {x : Exchange} {out : List UInt8} (now : Nat) (sched : Schedule)
    (hout : x.world.kernel.wire.clientOut = out ++ x.world.hc.fixed.take x.world.hc.fixedOff) :
    (x.write now sched).world.kernel.wire.clientOut =
      out ++ (x.write now sched).world.hc.fixed.take (x.write now sched).world.hc.fixedOff := by
  unfold Exchange.write fixedOnWrite
  split
  · exact hout
  · simp only [writeFixed]
    show x.world.kernel.wire.clientOut ++ _ = _
    rw [hout, List.append_assoc, List.take_add]
    rfl

/-- Sending a 502 leaves the exchange alone. -/
theorem write_frame (x : Exchange) (now : Nat) (sched : Schedule) :
    (x.write now sched).world.px = x.world.px ∧
      (x.write now sched).world.hc.fixed = x.world.hc.fixed ∧
      (x.write now sched).world.hc.phase = x.world.hc.phase ∧
      (x.write now sched).world.hc.buf = x.world.hc.buf ∧
      (x.write now sched).world.wrapped = x.world.wrapped ∧
      (x.write now sched).world.kernel.wire.clientIn = x.world.kernel.wire.clientIn ∧
      (x.write now sched).world.kernel.wire.conns = x.world.kernel.wire.conns := by
  unfold Exchange.write fixedOnWrite
  split
  · exact ⟨rfl, rfl, rfl, rfl, rfl, rfl, rfl⟩
  · exact ⟨rfl, rfl, rfl, rfl, rfl, rfl, rfl⟩

/-- An exchange that is over stays so while its 502 is sent. -/
theorem write_over {d : Relay} {x : Exchange} {now : Nat} {sched : Schedule}
    (hw : x.stage = .returned .wantWrite ∨ x.stage = .answered .wantWrite) (ho : Over d x) :
    Over d (x.write now sched) := by
  obtain ⟨hpx, hfx, hph, hbuf, hwr, hci, hcs⟩ := write_frame x now sched
  refine ⟨by rw [hpx]; exact ho.fd, hci.trans ho.clientIn, by rw [hcs]; exact ho.conns, ?_, ?_⟩
  · exact ho.bounds.congr (congrArg ProxyConn.core hpx) hbuf hwr
  · cases ho.outcome with
    | done hstage hf hkeep hphase hconns hout => rcases hw with h | h <;> rw [hstage] at h <;> cases h
    | closed hstage hphase hout => rcases hw with h | h <;> rw [hstage] at h <;> cases h
    | failed hstage hsent h100 hphase hfixed hout =>
        rw [← hfixed] at hout
        refine .failed (Or.inr (Or.inr ⟨_, rfl⟩)) hsent h100 (hph.trans hphase)
          (hfx.trans hfixed) ?_
        have h := write_out now sched hout
        rw [hfx, hfixed] at h
        exact h

/-- The step sends a request again without its body. -/
def Exchange.LosesBody (x : Exchange) : Action → Prop
  | .turn =>
      match x.stage with
      | .pumping _ b => x.world.TurnLosesBody b
      | _ => False
  | _ => False

instance (x : Exchange) : ∀ a, Decidable (x.LosesBody a)
  | .turn =>
      match h : x.stage with
      | .pumping _ b =>
          decidable_of_iff (x.world.TurnLosesBody b) (by rw [Exchange.LosesBody, h])
      | .returned _ => isFalse (by rw [Exchange.LosesBody, h]; exact id)
      | .answered _ => isFalse (by rw [Exchange.LosesBody, h]; exact id)
  | .pump _ _ => isFalse id
  | .write _ _ => isFalse id

/-- The step lemma of every invariant of an exchange. -/
theorem Trace.step {resend : Prop} {d₀ : Relay} {x y : Exchange} {a : Action} (hb : Bounds d₀)
    (hup : d₀.up = true) (hphase : d₀.clientPhase = .read) (ht : Trace resend d₀ x) (hres : x.LosesBody a → resend)
    (h : x.step a = some y) : Trace resend d₀ y := by
  cases a with
  | turn =>
      rw [Exchange.step] at h
      cases hs : x.stage with
      | pumping now b =>
          rw [hs] at h
          cases ht with
          | live hm _ =>
              have hres' : x.world.TurnLosesBody b → resend := fun hl => hres (by
                unfold Exchange.LosesBody
                rw [hs]
                exact hl)
              exact Trace.turn hb hm hres' h
          | «over» d hm ho =>
              cases ho.outcome with
              | done hstage _ _ _ _ _ => rw [hs] at hstage; cases hstage
              | closed hstage _ _ => rw [hs] at hstage; cases hstage
              | failed hstage _ _ _ _ _ =>
                  rw [hs] at hstage
                  rcases hstage with h | h | ⟨io, h⟩ <;> cases h
      | returned io => rw [hs] at h; cases h
      | answered io => rw [hs] at h; cases h
  | pump now sched =>
      rw [Exchange.step] at h
      have hy : enter now (x.world.withSched sched) = y := by
        split at h
        · cases h
        · exact Option.some.inj h
      rw [← hy]
      cases ht with
      | live hm _ => exact enter_trace hb hup hm
      | «over» d hm ho => exact .over d hm (enter_over ho)
  | write now sched =>
      rw [Exchange.step] at h
      split at h
      · rename_i hcond
        obtain ⟨hstage, hwrite⟩ := hcond
        rw [← Option.some.inj h]
        cases ht with
        | live hm _ =>
            have hread : x.world.hc.phase = .read := hm.frame.clientPhase.trans hphase
            rw [hread] at hwrite
            cases hwrite
        | «over» d hm ho => exact .over d hm (write_over hstage ho)
      · cases h

/-! ## The start of an exchange -/

/-- The slot as `route_begin` hands it to `proxy_begin`: `http_parse_request` has
accepted the buffer, and no exchange is on. -/
structure Begins (w : World) : Prop where
  parsed : httpParseRequest w.hc.buf = .ok w.hc.req
  idle : w.px.fd = none
  phase : w.hc.phase = .read
  wire : w.kernel.wire = .empty
  wrapped : w.wrapped = false

/-- A slot prepared by `http_conn_prepare` whose buffer `buf` has been parsed, in a
worker with the idle pool `pool`. -/
def readySlot (buf : List UInt8) (pool : List ProxyIdle) (sched : Schedule) : World where
  hc :=
    { fd := some 3
      buf := buf
      headerCap := 4096
      readTimeoutMs := 10000
      sendTimeoutMs := 30000
      keepaliveMs := 15000
      req := (httpParseRequest buf).toOption.getD .zero
      phase := .read
      sendBody := false
      corkOn := false
      keep := false
      fileOwned := true
      statusCode := 0
      deadlineMs := 10000
      lastActiveMs := 0
      fixed := []
      fixedOff := 0
      outHdr := []
      outHdrOff := 0
      fileFd := none
      fileSize := 0
      fileOff := 0 }
  px := .zero
  pool := pool
  kernel := ⟨sched, .empty⟩
  wrapped := false

/-- A slot with a request that the parser accepts. -/
theorem readySlot_begins {buf : List UInt8} {pool : List ProxyIdle} {sched : Schedule}
    (h : (httpParseRequest buf).toOption.isSome = true) : Begins (readySlot buf pool sched) := by
  obtain ⟨r, hr⟩ := Option.isSome_iff_exists.1 h
  refine ⟨?_, rfl, rfl, rfl, rfl⟩
  show httpParseRequest buf = .ok ((httpParseRequest buf).toOption.getD .zero)
  rw [hr]
  cases hp : httpParseRequest buf with
  | error e =>
      rw [hp] at hr
      cases hr
  | ok req =>
      rw [hp] at hr
      cases hr
      rfl

/-- The slot's proxy state when `PX_SEND_REQ` starts. -/
def startConn (w : World) (head : List UInt8) (reused : Bool) : ProxyConn :=
  { w.beginConn [] 0 head with
    phase := .sendReq
    flags := { PxFlags.zero with send100 := expectsContinue w.hc, reused := reused } }

/-- `d` is the relay state in which the exchange of `w` starts to send `head`. -/
structure Starts (w : World) (head : List UInt8) (d : Relay) : Prop where
  head_eq : rewriteRequest (w.hc.buf.take w.hc.req.headerBytes) = some head
  up : d.up = true
  clientPhase : d.clientPhase = .read
  req : d.req = w.hc.req
  input : d.input = w.hc.buf
  px : ∃ reused, d.px = (startConn w head reused).core
  clientIn : d.clientIn = []
  clientOut : d.clientOut = []
  conns : ∃ fd reused, d.conns = [⟨fd, reused, [], [], false⟩]
  reused : ∀ c ∈ d.conns, c.reused = d.px.flags.reused
  wrapped : d.wrapped = false

/-- No exchange started: a fixed answer was armed instead. -/
structure Refused (w : World) (x : Exchange) : Prop where
  fd : x.world.px.fd = none
  px : x.world.px = w.px ∨ Bounds x.world.relay
  clientIn : x.world.kernel.wire.clientIn = []
  conns : x.world.kernel.wire.conns = []
  wrapped : x.world.wrapped = false
  phase : x.world.hc.phase = .writeFixed
  fixed : x.world.hc.fixed ∈ [RESP_405, RESP_411, RESP_502]
  out : x.world.kernel.wire.clientOut = x.world.hc.fixed.take x.world.hc.fixedOff
  stage : x.stage = .returned .wantWrite ∨ x.stage = .returned .close ∨
    ∃ io, x.stage = .answered io

theorem rewriteLines_le (n : Nat) : ∀ {p dst dst' : List UInt8},
    rewriteLines n p dst = some dst' → dst.length ≤ PROXY_HDR_MAX →
      dst'.length ≤ PROXY_HDR_MAX := by
  induction n with
  | zero =>
      intro p dst dst' h hle
      cases h
      exact hle
  | succ n ih =>
      intro p dst dst' h hle
      rw [rewriteLines] at h
      split at h
      · cases h
        exact hle
      split at h
      · cases h
      split at h
      · cases h
      split at h
      · exact ih h hle
      split at h
      · cases h
      · rename_i happ
        exact ih h ((appendBytes_some happ).2 hle)

/-- A rewritten head fits `px->hdr`. -/
theorem rewriteRequest_le {head hdr : List UInt8} (h : rewriteRequest head = some hdr) :
    hdr.length ≤ PROXY_HDR_MAX := by
  unfold rewriteRequest at h
  split at h
  · cases h
  split at h
  · cases h
  rename_i happ
  split at h
  · cases h
  · rename_i hlines
    exact (appendBytes_some h).2
      (rewriteLines_le _ hlines ((appendBytes_some happ).2 (Nat.zero_le _)))

section Begin

variable {w : World}

/-- The header buffer counts no more of the body than was declared. -/
theorem bodyHave_le_need (hc : HttpConn) : World.bodyHave hc ≤ World.bodyNeed hc := by
  unfold World.bodyHave
  split
  · exact Nat.min_le_right _ _
  · exact Nat.zero_le _

/-- The body in the header buffer is inside it. -/
theorem Begins.bodyEnd_le (hw : Begins w) :
    w.hc.req.headerBytes + World.bodyHave w.hc ≤ w.hc.buf.length := by
  obtain ⟨hd, hacc⟩ := exists_head_of_accept hw.parsed
  have hle := hacc.headerBytes_le
  unfold World.bodyHave HttpConn.used
  split <;> omega

theorem Begins.bodyNeed_lt (hw : Begins w) : World.bodyNeed w.hc < 2 ^ 32 := by
  obtain ⟨hd, hacc⟩ := exists_head_of_accept hw.parsed
  have hlt := hacc.contentLength_lt
  unfold World.bodyNeed
  split
  · exact hlt
  · exact Nat.two_pow_pos 32

/-- The state `proxy_begin` fills in is within bounds. -/
theorem Begins.bounds {d : Relay} {hdr : List UInt8} (hw : Begins w)
    (hhdr : hdr.length ≤ PROXY_HDR_MAX) (hin : d.input = w.hc.buf) (hwr : d.wrapped = false)
    (hp : ∃ phase flags, d.px = ({ w.beginConn [] 0 hdr with
      phase := phase, flags := flags } : ProxyConn).core) : Bounds d := by
  obtain ⟨phase, flags, hp⟩ := hp
  have hneed := hw.bodyNeed_lt
  constructor
  case hdr_off => rw [hp]; exact Nat.zero_le _
  case hdr_len => rw [hp]; exact hhdr
  case buf_off => rw [hp]; exact le_rfl
  case buf_len => rw [hp]; exact Nat.zero_le _
  case body_off => rw [hp]; exact Nat.le_add_right _ _
  case body_end => rw [hp, hin]; exact hw.bodyEnd_le
  case body_left =>
    rw [hp]
    show sub32 (World.bodyNeed w.hc) (World.bodyHave w.hc) < 2 ^ 32
    rw [sub32_eq (bodyHave_le_need w.hc)]
    omega
  case chunk => rw [hp]; exact ChunkScan.start_valid
  case wrapped => exact hwr

/-- An exchange starts with its offsets in their buffers. -/
theorem Starts.bounds {head : List UInt8} {d : Relay} (hw : Begins w) (hs : Starts w head d) :
    Bounds d := by
  obtain ⟨reused, hp⟩ := hs.px
  exact hw.bounds (rewriteRequest_le hs.head_eq) hs.input hs.wrapped ⟨_, _, hp⟩

/-- A fixed answer instead of an exchange. -/
theorem armFixed_refused {v : World} {resp : List UInt8} {status now : Nat}
    (hfd : v.px.fd = none) (hpx : v.px = w.px ∨ Bounds v.relay) (hwire : v.kernel.wire.clientIn = [] ∧
      v.kernel.wire.clientOut = [] ∧ v.kernel.wire.conns = []) (hwr : v.wrapped = false)
    (hresp : resp ∈ [RESP_405, RESP_411, RESP_502]) :
    Refused w ⟨v.armFixed resp status now, .returned .wantWrite⟩ := by
  obtain ⟨hci, hco, hcs⟩ := hwire
  refine ⟨hfd, ?_, hci, hcs, hwr, rfl, hresp, hco, Or.inl rfl⟩
  exact hpx.imp_right fun hb => hb.congr rfl rfl rfl

/-- The state in which `proxy_begin` has its socket starts the exchange. -/
theorem beginOn_trace (resend : Prop) {v : World} {head addr : List UInt8} {len : Nat} (fd : Nat)
    (reused : Bool) (now : Nat) (hw : Begins w) (hhead : rewriteRequest (w.hc.buf.take w.hc.req.headerBytes) = some head)
    (hhc : v.hc = w.hc) (hpx : v.px = w.beginConn addr len head)
    (hwire : v.kernel.wire.clientIn = [] ∧ v.kernel.wire.clientOut = [] ∧
      v.kernel.wire.conns = []) (hwr : v.wrapped = false) :
    ∃ d, Starts w head d ∧
      match v.beginOn fd reused now with
      | .error r => Trace resend d ⟨r.2, .returned r.1⟩
      | .ok u => u.relay = d := by
  obtain ⟨hci, hco, hcs⟩ := hwire
  -- The world after `proxy_begin` opened the socket: the relay starts from it.
  set v₁ : World := { v with
    kernel := v.kernel.openConn fd reused
    px := { v.px with
      fd := some fd
      phase := .sendReq
      flags := { v.px.flags with reused := reused } } } with hv₁
  have hstart : Starts w head v₁.relay := by
    constructor
    case head_eq => exact hhead
    case up => rfl
    case clientPhase => exact (congrArg HttpConn.phase hhc).trans hw.phase
    case req => exact congrArg HttpConn.req hhc
    case input => exact congrArg HttpConn.buf hhc
    case px =>
      refine ⟨reused, ?_⟩
      show ProxyConn.core { v.px with
        fd := some fd
        phase := .sendReq
        flags := { v.px.flags with reused := reused } } = _
      rw [hpx]
      rfl
    case clientIn => exact hci
    case clientOut => exact hco
    case conns =>
      refine ⟨fd, reused, ?_⟩
      show (⟨fd, reused, [], [], false⟩ :: v.kernel.wire.conns) = _
      rw [hcs]
    case reused =>
      intro c hc
      have hc : c ∈ (⟨fd, reused, [], [], false⟩ :: v.kernel.wire.conns : List UpstreamConn) := hc
      rw [hcs] at hc
      rw [List.mem_singleton.1 hc]
      rfl
    case wrapped => exact hwr
  refine ⟨v₁.relay, hstart, ?_⟩
  -- Corking is not seen by the relay.
  have hcork : (if v₁.hasBody then v₁.corkUp true else v₁).relay = v₁.relay := by
    split
    · exact v₁.corkUp_relay true
    · rfl
  unfold World.beginOn
  simp only
  rw [← hv₁]
  set v₂ := if v₁.hasBody then v₁.corkUp true else v₁ with hv₂
  set c := if reused = true then (ConnectResult.connected, v₂.kernel)
    else v₂.kernel.connect fd v₂.px.upAddr with hc
  have hrel : World.relay { v₂ with kernel := c.2 } = v₁.relay := by
    rw [← hcork, hc]
    split <;> rfl
  -- `connect` fails at once.
  split
  · rename_i r hr
    split at hr
    · cases hr
      refine .over _ .refl (failed_over (.of_relay hrel (hstart.bounds hw)) ?_ (Or.inr hco))
      exact congrArg (fun e : Relay => e.px.flags.respSent) hrel
    · cases hr
  -- It is in progress, or done.
  · rename_i u hu
    split at hu
    · cases hu
    · cases hu
      exact hrel

/-- What `proxy_begin` does before its first turn. -/
theorem proxySetup_trace (resend : Prop) (hw : Begins w) (addr : List UInt8) (len now : Nat) :
    match w.proxySetup addr len now with
    | .error r => Refused w ⟨r.2, .returned r.1⟩ ∨
        ∃ head d, Starts w head d ∧ Trace resend d ⟨r.2, .returned r.1⟩
    | .ok u => ∃ head d, Starts w head d ∧ u.relay = d := by
  have hwire : w.kernel.wire.clientIn = [] ∧ w.kernel.wire.clientOut = [] ∧
      w.kernel.wire.conns = [] := by
    rw [hw.wire]
    exact ⟨rfl, rfl, rfl⟩
  have hwrap : (w.wrapped || decide (World.bodyNeed w.hc < World.bodyHave w.hc)) = false := by
    rw [hw.wrapped, decide_eq_false (Nat.not_lt.2 (bodyHave_le_need w.hc)), Bool.or_false]
  have hbounds : ∀ hdr : List UInt8, hdr.length ≤ PROXY_HDR_MAX → ∀ v : World,
      v.hc = w.hc → v.px = w.beginConn addr len hdr → v.wrapped = false → Bounds v.relay := by
    intro hdr hle v hhc hpx hwr
    refine hw.bounds hle (congrArg HttpConn.buf hhc) hwr ⟨.none, v.px.flags, ?_⟩
    show v.px.core = _
    rw [hpx]
    rfl
  unfold World.proxySetup
  simp only [hwrap]
  -- A method the proxy does not forward is answered 405.
  by_cases hmethod : w.hc.req.method ≠ .get ∧ w.hc.req.method ≠ .head ∧ w.hc.req.method ≠ .post
  · rw [if_pos hmethod]
    exact Or.inl (armFixed_refused hw.idle (Or.inl rfl) hwire hw.wrapped (by simp))
  rw [if_neg hmethod]
  -- A POST needs a declared length.
  by_cases hpost : w.hc.req.method = .post ∧ (!w.hc.req.flags.contentLength) = true
  · rw [if_pos hpost]
    exact Or.inl (armFixed_refused hw.idle (Or.inl rfl) hwire hw.wrapped (by simp))
  rw [if_neg hpost]
  cases hhead : rewriteRequest (w.hc.buf.take w.hc.req.headerBytes) with
  -- The head cannot be rewritten, or grows too long.
  | none =>
      refine Or.inl (armFixed_refused rfl (Or.inr ?_) hwire rfl (by simp))
      exact hbounds [] (Nat.zero_le _) _ rfl rfl rfl
  | some hdr =>
      have hle := rewriteRequest_le hhead
      -- The socket comes from the idle pool, or is a new one.
      have hbegin : ∀ (v : World) (fd : Nat) (reused : Bool), v.hc = w.hc →
          v.px = w.beginConn addr len hdr → v.kernel.wire.clientIn = [] ∧
            v.kernel.wire.clientOut = [] ∧ v.kernel.wire.conns = [] → v.wrapped = false →
          match v.beginOn fd reused now with
          | .error r => Refused w ⟨r.2, .returned r.1⟩ ∨
              ∃ head d, Starts w head d ∧ Trace resend d ⟨r.2, .returned r.1⟩
          | .ok u => ∃ head d, Starts w head d ∧ u.relay = d := by
        intro v fd reused hhc hpx hv hwr
        obtain ⟨d, hstart, ht⟩ := beginOn_trace resend fd reused now hw hhead hhc hpx hv hwr
        cases hon : v.beginOn fd reused now with
        | error r =>
            rw [hon] at ht
            exact Or.inr ⟨hdr, d, hstart, ht⟩
        | ok u =>
            rw [hon] at ht
            exact ⟨hdr, d, hstart, ht⟩
      rcases proxyPoolTake w.pool addr len with ⟨_ | fd, pool⟩
      -- The pool has none for this address.
      · cases hsock : (w.kernel.socket addr).1 with
        | none =>
            simp only
            refine Or.inl (armFixed_refused rfl (Or.inr ?_) hwire rfl (by simp))
            exact hbounds hdr hle _ rfl rfl rfl
        | some fd =>
            simp only
            exact hbegin _ fd false rfl rfl hwire rfl
      -- A pooled socket is reused.
      · exact hbegin _ fd true rfl rfl hwire rfl

/-- An exchange starts, or it is refused. -/
theorem begin_trace (resend : Prop) (hw : Begins w) (addr : List UInt8) (len now : Nat) :
    Refused w (beginExchange w addr len now) ∨
      ∃ head d, Starts w head d ∧ Trace resend d (beginExchange w addr len now) := by
  have h := proxySetup_trace resend hw addr len now
  unfold beginExchange
  cases hs : w.proxySetup addr len now with
  | error r =>
      rw [hs] at h
      exact h
  | ok u =>
      rw [hs] at h
      obtain ⟨head, d, hstart, hu⟩ := h
      refine Or.inr ⟨head, d, hstart, enter_trace (hstart.bounds hw) hstart.up ?_⟩
      rw [hu]

/-- An exchange that was refused stays so. -/
theorem Refused.step {x y : Exchange} {a : Action} (hr : Refused w x) (h : x.step a = some y) :
    Refused w y := by
  cases a with
  | turn =>
      rw [Exchange.step] at h
      rcases hr.stage with hs | hs | ⟨io, hs⟩ <;> rw [hs] at h <;> cases h
  | pump now sched =>
      have hy : enter now (x.world.withSched sched) = y := by
        rw [Exchange.step] at h
        split at h
        · cases h
        · exact Option.some.inj h
      have hfd : (x.world.withSched sched).px.fd = none := hr.fd
      rw [← hy]
      unfold enter World.pumpEntry
      rw [if_pos hfd]
      exact ⟨hr.fd, hr.px, hr.clientIn, hr.conns, hr.wrapped, hr.phase, hr.fixed, hr.out,
        Or.inr (Or.inl rfl)⟩
  | write now sched =>
      rw [Exchange.step] at h
      split at h
      · rw [← Option.some.inj h]
        obtain ⟨hpx, hfx, hph, hbuf, hwr, hci, hcs⟩ := write_frame x now sched
        refine ⟨by rw [hpx]; exact hr.fd, ?_, hci.trans hr.clientIn, hcs.trans hr.conns,
          hwr.trans hr.wrapped, hph.trans hr.phase, by rw [hfx]; exact hr.fixed, ?_,
          Or.inr (Or.inr ⟨_, rfl⟩)⟩
        · rw [hpx]
          exact hr.px.imp_right fun hb => hb.congr (congrArg ProxyConn.core hpx) hbuf hwr
        · have ho : x.world.kernel.wire.clientOut = [] ++ _ := hr.out
          exact write_out now sched ho
      · cases h

/-- Every state of a run of an exchange: a fixed answer instead of it, or a state
that moves of the started exchange account for. -/
theorem trace_of_mem (resend : Prop) (hw : Begins w) {addr : List UInt8} {len now : Nat}
    {as : List Action}
    (hres : AllSteps Exchange.step (fun x a => x.LosesBody a → resend)
      (beginExchange w addr len now) as) :
    ∀ x ∈ runStates Exchange.step (beginExchange w addr len now) as,
      Refused w x ∨ ∃ head d, Starts w head d ∧ Trace resend d x := by
  refine AllSteps.invariant ?_ (begin_trace resend hw addr len now) hres
  intro x a y hx hgood hstep
  rcases hx with hr | ⟨head, d, hs, ht⟩
  · exact Or.inl (hr.step hstep)
  · exact Or.inr ⟨head, d, hs, ht.step (hs.bounds hw) hs.up hs.clientPhase hgood hstep⟩

/-- The same for every run, whatever is sent again. -/
theorem trace_of_mem_all (hw : Begins w) {addr : List UInt8} {len now : Nat} {as : List Action} :
    ∀ x ∈ runStates Exchange.step (beginExchange w addr len now) as,
      Refused w x ∨ ∃ head d, Starts w head d ∧ Trace True d x :=
  trace_of_mem True hw (AllSteps.of_forall (fun _ _ _ => trivial) as _)

end Begin

end TinyServer.Proxy
