import TinyServer.Serve.Loop

/-!
# Upstream events that come too late

The events of one batch are handled in turn, so an event for an upstream socket can come
after the exchange it belonged to has ended. The worker looks only at whether the slot
is active: it calls `proxy_pump`, which answers `HTTP_IO_CLOSE` where there is no
upstream socket, and closes the slot.
-/

set_option autoImplicit false

namespace TinyServer.Serve

open TinyServer.Http TinyServer.Net TinyServer.Proxy TinyServer.Static TinyServer.Routing
open TinyServer.Lib

/-- An upstream event for the slot `s`, whose exchange has ended. -/
def StaleEvent (w : Worker) (s : Slot) : Action → Prop
  | .event ev _ _ _ => ev.upstream = true ∧ w.slots[ev.idx]? = some s ∧ s.px.fd = none
  | _ => False

/-- The slot an action is about. -/
def Action.idx : Action → Nat
  | .event ev _ _ _ => ev.idx
  | _ => 0

/-- A stale event leaves its slot as it was. -/
def StaleHarmless (site : Site) (fuel : Nat) (w : Worker) (a : Action) : Prop :=
  ∀ s, StaleEvent w s a → ∀ w', w.step site fuel a = some w' → w'.slots[a.idx]? = some s

/-- A stale event is for a slot that is no longer active. -/
def StaleInactive (w : Worker) (a : Action) : Prop := ∀ s, StaleEvent w s a → s.active = false

section Event

variable {site : Site} {fuel : Nat} {w : Worker} {s : Slot}

/-- `proxy_pump` without an upstream socket. -/
theorem pump_idle {t : Turn} (now : Nat) (h : t.px.fd = none) :
    Turn.pump fuel now t = some (.close, { t with proxying := false }) := by
  have hpump : t.world.proxyPump fuel now = some (.close, t.world) := by
    unfold World.proxyPump World.pumpEntry
    rw [if_pos (show t.world.px.fd = none from h)]
  unfold Turn.pump
  rw [hpump, Option.map_some]
  show some (HttpIo.close, { t with proxying := t.px.fd.isSome }) = _
  rw [h]
  rfl

theorem slotClose_inactive (idx : Nat) {t : Turn} (h : t.active = true) :
    (t.slotClose idx).active = false := by
  unfold Turn.slotClose
  rw [h]
  rfl

/-- A stale event closes an active slot. -/
theorem stale_closes {ev : Event} (now : Nat) {t : Turn} (hup : ev.upstream = true)
    (hfd : t.px.fd = none) : Turn.onEvent site fuel now ev t =
      some (Turn.slotClose ev.idx { t with proxying := false }) := by
  have hclient : ¬ ((!ev.upstream) = true ∧ ev.err = true ∧ (!ev.inp) = true ∧
      (!ev.out) = true) := by
    rw [hup]
    exact fun h => Bool.false_ne_true h.1
  unfold Turn.onEvent
  rw [if_pos (Or.inl hup), if_neg hclient, pump_idle now hfd]
  simp only
  unfold Turn.applyIo
  cases fuel with
  | zero => rfl
  | succ n => rfl

/-- A stale event does no harm exactly when its slot is not active. -/
theorem staleHarmless_iff (w : Worker) (a : Action) (hon : w.exited = false) :
    StaleHarmless site fuel w a ↔ StaleInactive w a := by
  cases a with
  | accept fd acceptTime now sched disk => exact ⟨fun _ _ h => h.elim, fun _ _ h => h.elim⟩
  | sweep now => exact ⟨fun _ _ h => h.elim, fun _ _ h => h.elim⟩
  | exit => exact ⟨fun _ _ h => h.elim, fun _ _ h => h.elim⟩
  | event ev now sched disk =>
      have hstep : w.step site fuel (.event ev now sched disk) =
          w.onSlot ev.idx sched disk (Turn.onEvent site fuel now ev) := by
        unfold Worker.step
        rw [hon]
        rfl
      constructor
      · intro h s hs
        obtain ⟨hup, hslot, hfd⟩ := hs
        by_contra hact
        have hact' : s.active = true := by simpa using hact
        have hload : (w.load s sched disk).px.fd = none := hfd
        have hlt : ev.idx < w.slots.length := by
          rw [List.getElem?_eq_some_iff] at hslot
          exact hslot.1
        have hrun : w.step site fuel (.event ev now sched disk) = some (w.store ev.idx
            (Turn.slotClose ev.idx { w.load s sched disk with proxying := false })) := by
          rw [hstep]
          unfold Worker.onSlot
          rw [hslot]
          simp only [hact', Bool.not_true, Bool.false_eq_true, if_false]
          rw [stale_closes now hup hload, Option.map_some]
        have hleft := h s ⟨hup, hslot, hfd⟩ _ hrun
        have hclosed : (w.store ev.idx (Turn.slotClose ev.idx
            { w.load s sched disk with proxying := false })).slots[ev.idx]? =
            some (Worker.slotOf (Turn.slotClose ev.idx
              { w.load s sched disk with proxying := false })) := by
          show (w.slots.set ev.idx _)[ev.idx]? = _
          rw [List.getElem?_set_self hlt]
        have hinactive := slotClose_inactive ev.idx
          (t := { w.load s sched disk with proxying := false }) hact'
        have heq := Option.some.inj (hclosed.symm.trans hleft)
        rw [← heq] at hact'
        exact Bool.false_ne_true (hinactive.symm.trans hact')
      · intro h s hs w' hw'
        have hact := h s hs
        obtain ⟨hup, hslot, hfd⟩ := hs
        rw [hstep] at hw'
        unfold Worker.onSlot at hw'
        rw [hslot] at hw'
        simp only [hact, Bool.not_false, if_true, Option.some.injEq] at hw'
        rw [← hw']
        exact hslot

end Event

/-- In every run of a worker, the stale events do no harm exactly when none of them is
for an active slot. -/
theorem staleEvents_harmless_iff (site : Site) (fuel slotCount : Nat) (as : List Action) :
    AllSteps (Worker.step site fuel) (StaleHarmless site fuel) (Worker.start slotCount) as ↔
      AllSteps (Worker.step site fuel) StaleInactive (Worker.start slotCount) as := by
  apply AllSteps.congr
  intro w a w' hstep
  apply staleHarmless_iff
  -- A worker that has left its loop takes no step.
  unfold Worker.step at hstep
  cases hon : w.exited with
  | false => rfl
  | true =>
      rw [hon] at hstep
      cases hstep

/-- Every request is proxied to one upstream. -/
def proxySite : Site where
  routes := [⟨.proxy, false, false, none, cstr "/", cstr "up", [1], 1⟩]
  docroot := none
  allowDotfiles := false

/-- The client's event of the second batch ends the exchange and keeps the connection;
the upstream's event of the same batch comes after it. -/
def staleRun : List Action :=
  [.accept (some 5) 0 0 { Schedule.quiet with
      clientReads := [.data (cstr "GET / HTTP/1.1\r\nHost: a\r\n\r\n")]
      sockets := [some 6]
      upstreamSends := [.sent 99] } .quiet,
    .event ⟨true, 0, true, false, false⟩ 1 { Schedule.quiet with
      upstreamReads := [.data (cstr "HTTP/1.1 200 OK\r\nContent-Length: 1\r\n\r\nx")] } .quiet,
    .event ⟨false, 0, false, true, false⟩ 2 { Schedule.quiet with
      clientSends := [.sent 99] } .quiet,
    .event ⟨true, 0, true, false, true⟩ 2 .quiet .quiet]

/-- A stale event closes a connection that was kept for its next request. -/
theorem staleEvent_closes_kept :
    ¬ AllSteps (Worker.step proxySite 20) (StaleHarmless proxySite 20) (Worker.start 1)
      staleRun := by
  intro hall
  -- After the client's event the connection is kept and waits for its next request.
  have hkept : (runTo (Worker.step proxySite 20) (Worker.start 1) (staleRun.take 3)).map
      (fun w => w.slots.map fun s => (s.active, s.armedIo, s.px.fd,
        s.trail.answers.map (·.continued))) = some [(true, .wantRead, none, [true])] := by
    decide
  have hclosed : (runTo (Worker.step proxySite 20) (Worker.start 1) (staleRun.take 3)).bind
      (fun w => (w.step proxySite 20 (.event ⟨true, 0, true, false, true⟩ 2 .quiet .quiet)).map
        fun w' => w'.slots.map (·.active)) = some [false] := by
    decide
  obtain ⟨w, hw, hslots⟩ := Option.map_eq_some_iff.1 hkept
  rw [hw, Option.bind_some] at hclosed
  obtain ⟨w', hw', hslots'⟩ := Option.map_eq_some_iff.1 hclosed
  obtain ⟨s, hs, hfacts⟩ := List.map_eq_singleton_iff.1 hslots
  obtain ⟨s', hs', hinactive⟩ := List.map_eq_singleton_iff.1 hslots'
  simp only [Prod.mk.injEq] at hfacts
  have hslot : w.slots[0]? = some s := by rw [hs, List.getElem?_cons_zero]
  have hgood := AllSteps.step_good hall hw hw'
  have hleft := hgood s ⟨rfl, hslot, hfacts.2.2.1⟩ w' hw'
  have hsame : s' = s := by
    have h0 : w'.slots[0]? = some s := hleft
    rw [hs', List.getElem?_cons_zero] at h0
    exact Option.some.inj h0
  rw [hsame, hfacts.1] at hinactive
  cases hinactive

end TinyServer.Serve
