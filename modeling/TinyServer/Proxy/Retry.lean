import TinyServer.Proxy.Terminates

/-!
# When a request is sent again

`proxy_retry_idle` judges by the buffer whether the upstream has answered, but a 1xx
head that was dropped has left the buffer. So a GET or HEAD is sent again after bytes of
a response exactly when a reused connection ends right behind such heads
(`Exchange.EndsAnswered`, `resentClean_iff`).
-/

set_option autoImplicit false

namespace TinyServer.Proxy

open TinyServer.Http TinyServer.Net TinyServer.Lib

/-- The connection that a second one has replaced brought no byte. -/
def ResentClean (x : Exchange) : Prop :=
  ∀ c₂ c₁, x.world.kernel.wire.conns = [c₂, c₁] → c₁.received = []

/-- The newest connection has brought bytes. -/
def World.Heard (w : World) : Prop := ∃ c ∈ w.kernel.wire.conns.head?, c.received ≠ []

/-- The turn to come finds the end of an idle connection, or an error on it, behind bytes
that have left the buffer. -/
def World.EndsAnswered (w : World) : Prop :=
  w.px.phase = .recvHdr ∧ w.canRetryIdle = true ∧ w.Heard ∧
    ((w.kernel.read .upstream PROXY_BUF_MAX).1 = .eof ∨
      (w.kernel.read .upstream PROXY_BUF_MAX).1 = .error) ∧
    (w.kernel.sched.sockets.headD none).isSome = true

/-- The step is such a turn. -/
def Exchange.EndsAnswered (x : Exchange) : Action → Prop
  | .turn =>
      match x.stage with
      | .pumping _ b => b ≠ 0 ∧ x.world.flush100.1 = .done ∧ x.world.flush100.2.EndsAnswered
      | _ => False
  | _ => False

section Turns

variable {w : World} {now b : Nat}

/-- A retry starts with an empty buffer on a reused socket. -/
theorem canRetryIdle_buf (h : w.canRetryIdle = true) :
    w.px.buf = [] ∧ w.px.flags.reused = true := by
  unfold World.canRetryIdle at h
  simp only [Bool.and_eq_true, beq_iff_eq] at h
  exact ⟨List.length_eq_zero_iff.1 h.1.2, h.1.1.1⟩

/-- A retry puts a new connection in front of the one that failed. -/
theorem retryOrFail_replaces {u : World} (hpx : u.px = w.px) (hhc : u.hc = w.hc)
    (hsock : u.kernel.sched.sockets = w.kernel.sched.sockets) {fd : Nat}
    (hfd : w.kernel.sched.sockets.headD none = some fd) (hcan : w.canRetryIdle = true)
    (hrec : u.kernel.wire.conns.map (·.received) = w.kernel.wire.conns.map (·.received)) :
    Replaces w (u.retryOrFail b).1 := by
  have hsame : u.canRetryIdle = true := by
    rw [← hcan]
    unfold World.canRetryIdle
    rw [hpx, hhc]
  have hconns := proxyReopen_conns u
  rw [hsock, hfd] at hconns
  refine ⟨fd, u.kernel.wire.conns, hfd, ?_, hrec⟩
  have hlen : u.px.buf.length = 0 := by rw [(canRetryIdle_buf hsame).1, List.length_nil]
  unfold World.retryOrFail World.proxyRetryIdle
  simp only [hlen, hsame, Bool.not_true, Bool.false_eq_true, if_false, if_true]
  split
  · refine Eq.trans ?_ hconns
    split <;> rfl
  · refine Eq.trans ?_ hconns
    split <;> rfl

/-- A turn in which the connection ends makes a new one, if it gets a socket. -/
theorem recvHdrTurn_replaces (h : w.EndsAnswered) : Replaces w (w.recvHdrTurn now b).1 := by
  obtain ⟨-, hcan, -, hread, hsock⟩ := h
  obtain ⟨fd, hfd⟩ := Option.isSome_iff_exists.1 hsock
  obtain ⟨hbuf, -⟩ := canRetryIdle_buf hcan
  have hroom : PROXY_BUF_MAX - w.px.buf.length = PROXY_BUF_MAX := by
    rw [hbuf]
    rfl
  unfold World.recvHdrTurn
  rw [hroom]
  have hnone : findHdrEnd w.px.buf = none := by
    rw [hbuf]
    rfl
  have hcap : ¬ PROXY_BUF_MAX ≤ w.px.buf.length := by
    rw [hbuf]
    decide
  simp only [hnone, if_neg hcap]
  rcases hread with hr | hr
  · rw [hr]
    exact retryOrFail_replaces rfl rfl (read_sockets _ _) hfd hcan
      (read_failed_received _ _ (Or.inl hr))
  · rw [hr]
    exact retryOrFail_replaces rfl rfl (read_sockets _ _) hfd hcan
      (read_failed_received _ _ (Or.inr hr))

end Turns

/-! ## Runs -/

section Runs

variable {w : World} {x y : Exchange}

/-- The state traces back to the start of the exchange, and no request was sent again after
an answer. -/
structure RetryInv (w : World) (x : Exchange) : Prop where
  trace : Refused w x ∨ ∃ head d₀, Starts w head d₀ ∧ Trace True d₀ x
  clean : ResentClean x

/-- What a turn that goes on knows of the connections. -/
structure LiveConns (w : World) : Prop where
  reused : w.px.flags.reused = true → ∃ c, w.kernel.wire.conns = [c]
  early : w.px.phase = .sendReq → ∀ c ∈ w.kernel.wire.conns.head?, c.received = []

/-- An exchange that goes on has a connection. -/
theorem liveConns_of_trace {now b : Nat}
    (ht : Refused w x ∨ ∃ head d₀, Starts w head d₀ ∧ Trace True d₀ x)
    (hs : x.stage = .pumping now b) : LiveConns x.world := by
  rcases ht with hr | ⟨head, d₀, hst, ht⟩
  · rcases hr.stage with h | h | ⟨io, h⟩ <;> rw [hs] at h <;> cases h
  cases ht with
  | «over» d hm ho =>
      cases ho.outcome with
      | done hstage _ _ _ _ _ => rw [hs] at hstage; cases hstage
      | closed hstage _ _ => rw [hs] at hstage; cases hstage
      | failed hstage _ _ _ _ _ =>
          rw [hs] at hstage
          rcases hstage with h | h | ⟨io, h⟩ <;> cases h
  | live hm _ =>
      have ha := hst.attemptInv.moves hm
      obtain ⟨c, cs, out, hc, -, hp⟩ := hst.clientInv.moves hm
      constructor
      case reused =>
        intro hr
        obtain ⟨c', hc', -⟩ := ha.reused hr
        exact ⟨c', hc'⟩
      case early =>
        intro hphase c' hc'
        have hcs : x.world.kernel.wire.conns = c :: cs := hc
        have hph : x.world.relay.px.phase = .sendReq := hphase
        rw [hcs, List.head?_cons, Option.mem_some_iff] at hc'
        unfold ClientPhase at hp
        rw [hph] at hp
        rw [← hc']
        exact hp.2

/-- The connections after a turn are those the turn leaves. -/
theorem turn_conns {now b : Nat} (hs : x.stage = .pumping now b) (h : x.step .turn = some y) :
    y.world.kernel.wire.conns = (x.world.pumpTurn now b).1.kernel.wire.conns := by
  rw [Exchange.step, hs] at h
  unfold Exchange.turn at h
  simp only at h
  rcases hr : x.world.pumpTurn now b with ⟨v, e⟩
  rw [hr] at h
  cases e with
  | again c =>
      rw [← Option.some.inj h]
  | _ =>
      obtain ⟨r, hleave, rfl⟩ := Option.map_eq_some_iff.1 h
      exact leave_conns hleave

/-- A step that is not a turn leaves the connections. -/
theorem step_conns {a : Action} (ha : a ≠ .turn) (h : x.step a = some y) :
    y.world.kernel.wire.conns = x.world.kernel.wire.conns := by
  cases a with
  | turn => exact absurd rfl ha
  | pump now sched =>
      rw [Exchange.step] at h
      split at h
      · cases h
      · rw [← Option.some.inj h]
        exact enter_conns
  | write now sched =>
      rw [Exchange.step] at h
      split at h
      · rw [← Option.some.inj h]
        exact (write_frame x now sched).2.2.2.2.2.2
      · cases h

/-- Nothing was heard on a reused connection that a turn replaces, unless it ended behind
dropped heads. -/
theorem turn_clean {now b : Nat} (hl : LiveConns x.world) (hclean : ResentClean x)
    (hgood : ¬ (b ≠ 0 ∧ x.world.flush100.1 = .done ∧ x.world.flush100.2.EndsAnswered)) :
    ∀ c₂ c₁, (x.world.pumpTurn now b).1.kernel.wire.conns = [c₂, c₁] → c₁.received = [] := by
  intro c₂ c₁ hconns
  obtain ⟨hfconns, hfsock⟩ := flush100_conns (w := x.world)
  have hfphase := (flush100_moves True x.world).2.2
  have hturn : (x.world.pumpTurn now b).1.settled = x.world.settled ∨ _ := pumpTurn_settled
  rcases hturn with hset | ⟨hfails, hreused, hretry, fd, cs, hfd, hnew, hrec⟩
  · have hset' : settled x.world.kernel.wire.conns = (2, [c₁]) := by
      refine Eq.trans hset.symm ?_
      unfold World.settled
      rw [hconns]
      rfl
    cases hcs : x.world.kernel.wire.conns with
    | nil =>
        rw [hcs] at hset'
        cases hset'
    | cons c cs' =>
        rw [hcs] at hset'
        obtain ⟨-, htail⟩ := Prod.mk.inj hset'
        have hcs' : cs' = [c₁] := htail
        exact hclean c c₁ (by rw [hcs, hcs'])
  · rw [hconns] at hnew
    obtain ⟨-, rfl⟩ := List.cons.inj hnew
    cases hcs : x.world.kernel.wire.conns with
    | nil =>
        rw [hcs] at hrec
        cases hrec
    | cons c cs' =>
        rw [hcs] at hrec
        have hc : c₁.received = c.received := (List.cons.inj hrec).1
        rw [hc]
        have hmem : c ∈ x.world.kernel.wire.conns.head? := by
          rw [hcs]
          rfl
        rcases hfails with ⟨hphase, -, -⟩ | ⟨hphase, hread⟩
        · exact hl.early (hfphase.symm.trans hphase) c hmem
        · by_contra hne
          obtain ⟨hb, hdone, hcan⟩ := hretry hphase
          have hlen : x.world.flush100.2.px.buf.length = 0 := by
            rw [(canRetryIdle_buf hcan).1, List.length_nil]
          rw [hlen, Nat.sub_zero] at hread
          refine hgood ⟨hb, hdone, hphase, hcan, ⟨c, ?_, hne⟩, hread, ?_⟩
          · rw [hfconns]
            exact hmem
          · rw [hfsock, hfd]
            rfl

/-- The step lemma. -/
theorem RetryInv.step {a : Action} (hw : Begins w) (hi : RetryInv w x)
    (hgood : ¬ x.EndsAnswered a) (h : x.step a = some y) : RetryInv w y := by
  constructor
  case trace =>
    rcases hi.trace with hr | ⟨head, d, hs, ht⟩
    · exact Or.inl (hr.step h)
    · exact Or.inr ⟨head, d, hs,
        ht.step (hs.bounds hw) hs.up hs.clientPhase (fun _ => trivial) h⟩
  case clean =>
    intro c₂ c₁ hconns
    by_cases ha : a = .turn
    · subst ha
      cases hs : x.stage with
      | pumping now b =>
          rw [turn_conns hs h] at hconns
          refine turn_clean (liveConns_of_trace hi.trace hs) hi.clean ?_ c₂ c₁ hconns
          unfold Exchange.EndsAnswered at hgood
          rw [hs] at hgood
          exact hgood
      | returned io =>
          rw [Exchange.step, hs] at h
          cases h
      | answered io =>
          rw [Exchange.step, hs] at h
          cases h
    · rw [step_conns ha h] at hconns
      exact hi.clean c₂ c₁ hconns

/-- A connection that ends behind dropped heads is replaced. -/
theorem not_resentClean_of_ends {a : Action} (hi : RetryInv w x) (hbad : x.EndsAnswered a)
    (h : x.step a = some y) : ¬ ResentClean y := by
  cases a with
  | pump now sched => exact hbad.elim
  | write now sched => exact hbad.elim
  | turn =>
      unfold Exchange.EndsAnswered at hbad
      cases hs : x.stage with
      | returned io =>
          rw [hs] at hbad
          exact hbad.elim
      | answered io =>
          rw [hs] at hbad
          exact hbad.elim
      | pumping now b =>
          rw [hs] at hbad
          obtain ⟨hb, hdone, hends⟩ := hbad
          obtain ⟨hfconns, -⟩ := flush100_conns (w := x.world)
          have hreused : x.world.px.flags.reused = true := by
            have hr := (canRetryIdle_buf hends.2.1).2
            have hg := congrArg World.Gauge.reused (flush100_same x.world).gauge
            exact hg.symm.trans hr
          obtain ⟨c, hc⟩ := (liveConns_of_trace hi.trace hs).reused hreused
          obtain ⟨c', hc', hne⟩ := hends.2.2.1
          have hturn : x.world.pumpTurn now b = x.world.flush100.2.recvHdrTurn now b := by
            unfold World.pumpTurn World.phaseTurn
            simp only [hdone, if_neg hb, hends.1]
          obtain ⟨fd, cs, -, hnew, hrec⟩ : Replaces _ (x.world.flush100.2.recvHdrTurn now b).1 :=
            recvHdrTurn_replaces hends
          rw [hfconns, hc] at hrec hc'
          have hlen := congrArg List.length hrec
          rw [List.length_map, List.length_map] at hlen
          obtain ⟨c₁, rfl⟩ := List.length_eq_one_iff.1 hlen
          have hrec₁ : c₁.received = c.received := (List.cons.inj hrec).1
          rw [List.head?_cons, Option.mem_some_iff] at hc'
          intro hclean
          have hnil := hclean _ c₁ ((turn_conns hs h).trans (by rw [hturn]; exact hnew))
          rw [← hc', ← hrec₁] at hne
          exact hne hnil

theorem beginOn_error_conns {v : World} {fd now : Nat} {reused : Bool} {r : HttpIo × World}
    (h : v.beginOn fd reused now = .error r) :
    r.2.kernel.wire.conns = ⟨fd, reused, [], [], false⟩ :: v.kernel.wire.conns := by
  unfold World.beginOn at h
  extract_lets src flags w₁ w₂ c w₃ at h
  split at h
  · have hcork : w₂.kernel.wire.conns = w₁.kernel.wire.conns := by
      show (if w₁.hasBody then w₁.corkUp true else w₁).kernel.wire.conns = _
      split
      · exact congrArg Relay.conns (w₁.corkUp_relay true)
      · rfl
    have hconn : c.2.wire.conns = w₂.kernel.wire.conns := by
      show (if reused then (ConnectResult.connected, w₂.kernel)
        else w₂.kernel.connect fd w₂.px.upAddr).2.wire.conns = _
      split <;> rfl
    rw [← Except.error.inj h]
    exact (proxyFail_released w₃ now).1.conns.trans (hconn.trans hcork)
  · cases h

/-- Before the first turn there is at most one connection. -/
theorem proxySetup_error_conns {addr : List UInt8} {len now : Nat} {r : HttpIo × World}
    (hw : w.kernel.wire.conns = []) (h : w.proxySetup addr len now = .error r) :
    r.2.kernel.wire.conns.length ≤ 1 := by
  have hnil : w.kernel.wire.conns.length ≤ 1 := by
    rw [hw]
    exact Nat.zero_le 1
  have hone : ∀ fd reused, (⟨fd, reused, [], [], false⟩ :: w.kernel.wire.conns :
      List UpstreamConn).length ≤ 1 := by
    intro fd reused
    rw [hw]
    exact le_rfl
  unfold World.proxySetup at h
  simp only at h
  split at h
  · rw [← Except.error.inj h]
    exact hnil
  split at h
  · rw [← Except.error.inj h]
    exact hnil
  split at h
  · rw [← Except.error.inj h]
    exact hnil
  split at h
  · rw [beginOn_error_conns h]
    exact hone _ _
  · split at h
    · rw [← Except.error.inj h]
      exact hnil
    · rw [beginOn_error_conns h]
      exact hone _ _

/-- The invariant holds when an exchange starts. -/
theorem beginExchange_retry (hw : Begins w) (addr : List UInt8) (len now : Nat) :
    RetryInv w (beginExchange w addr len now) := by
  refine ⟨begin_trace True hw addr len now, ?_⟩
  have hset := proxySetup_trace True hw addr len now
  intro c₂ c₁ hconns
  unfold beginExchange at hconns
  cases hr : w.proxySetup addr len now with
  | error r =>
      rw [hr] at hconns
      have hle := proxySetup_error_conns (by rw [hw.wire]; rfl) hr
      have htwo : r.2.kernel.wire.conns = [c₂, c₁] := hconns
      rw [htwo] at hle
      exact absurd hle (Nat.not_succ_le_self 1)
  | ok v =>
      rw [hr] at hset hconns
      obtain ⟨head, d, hs, hv⟩ := hset
      obtain ⟨fd, reused, hone⟩ := hs.conns
      rw [← hv] at hone
      have hcs : v.kernel.wire.conns = [⟨fd, reused, [], [], false⟩] := hone
      have hsame : (enter now v).world.kernel.wire.conns = v.kernel.wire.conns := enter_conns
      have hlen := congrArg List.length (hcs.symm.trans (hsame.symm.trans hconns))
      cases hlen

end Runs

/-- In every run, a request is sent again only when nothing was heard on the connection
before, if and only if no reused connection ends behind dropped 1xx heads. -/
theorem resentClean_iff {w : World} (hw : Begins w) (addr : List UInt8) (len now : Nat)
    (as : List Action) :
    (∀ x ∈ runStates Exchange.step (beginExchange w addr len now) as, ResentClean x) ↔
      AllSteps Exchange.step (fun x a => ¬ x.EndsAnswered a) (beginExchange w addr len now) as :=
  forall_runStates_iff (I := RetryInv w) (fun _ hi => hi.clean)
    (fun _ _ _ hi hgood hstep => hi.step hw hgood hstep)
    (fun _ _ _ hi hbad hstep => not_resentClean_of_ends hi (not_not.1 hbad) hstep)
    (beginExchange_retry hw addr len now) as

/-- A GET on an idle socket that the upstream has closed before it read the request. -/
theorem resentClean_iff_get :
    (∀ x ∈ runStates Exchange.step (beginExchange closedIdleSlot [1] 1 0) (List.replicate 5 .turn),
      ResentClean x) ↔
      AllSteps Exchange.step (fun x a => ¬ x.EndsAnswered a) (beginExchange closedIdleSlot [1] 1 0)
        (List.replicate 5 .turn) :=
  resentClean_iff (readySlot_begins (by decide)) [1] 1 0 (List.replicate 5 .turn)

/-- A GET on an idle socket on which the upstream answers with a 103 head and closes. -/
def hintedIdleSlot : World :=
  readySlot (cstr "GET / HTTP/1.1\r\nHost: a\r\n\r\n") [⟨5, 1, [1]⟩]
    { Schedule.quiet with
      sockets := [some 6]
      upstreamSends := [.sent 99]
      upstreamReads := [.data (cstr "HTTP/1.1 103 Early Hints\r\n\r\n"), .data []] }

/-- The request is sent again although the upstream has answered. -/
theorem hintedIdle_resent :
    Begins hintedIdleSlot ∧
      ∃ x ∈ runStates Exchange.step (beginExchange hintedIdleSlot [1] 1 0)
        (List.replicate 3 .turn), ¬ ResentClean x := by
  refine ⟨readySlot_begins (by decide), ?_⟩
  have h : (runTo Exchange.step (beginExchange hintedIdleSlot [1] 1 0)
      (List.replicate 3 .turn)).map (fun x => (x.world.px.phase,
        x.world.kernel.wire.conns.map fun c => (c.reused, c.received))) =
      some (.sendReq, [(false, []), (true, cstr "HTTP/1.1 103 Early Hints\r\n\r\n")]) := by
    decide
  obtain ⟨x, hx, heq⟩ := Option.map_eq_some_iff.1 h
  obtain ⟨-, hconns⟩ := Prod.mk.inj heq
  refine ⟨x, runTo_mem hx, ?_⟩
  intro hclean
  obtain ⟨c₂, cs, hcs, -, hrest⟩ := List.map_eq_cons_iff.1 hconns
  obtain ⟨c₁, cs', rfl, hc₁, hnil⟩ := List.map_eq_cons_iff.1 hrest
  rw [List.map_eq_nil_iff.1 hnil] at hcs
  have hempty := hclean c₂ c₁ hcs
  have hheard : c₁.received = cstr "HTTP/1.1 103 Early Hints\r\n\r\n" := (Prod.mk.inj hc₁).2
  rw [hempty] at hheard
  exact absurd hheard (by decide)

end TinyServer.Proxy
