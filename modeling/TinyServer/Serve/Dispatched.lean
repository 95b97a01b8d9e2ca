import TinyServer.Proxy.Ends
import TinyServer.Serve.Slots
import TinyServer.Serve.Slotwise

/-!
# Every request is dispatched once

`HTTP_IO_WANT_READ` has two meanings: the head of a request is not complete, or an exchange
waits for more of the body. The loop of `http_conn_on_read` takes the second for the first:
it reads on into the header buffer, and finds the same head again. As long as no exchange
comes back to the loop that started it (`Settled`), a request is read and routed only while
the slot has no exchange, and the requests routed are those answered
(`reachable_dispatched`).
-/

set_option autoImplicit false

namespace TinyServer.Serve

open TinyServer.Http TinyServer.Net TinyServer.Proxy TinyServer.Static TinyServer.Routing
open TinyServer.Lib

/-- A handler reads the client, parses what it has read, or routes a request. -/
def Point.fetches : Point → Bool
  | .reading | .parsing _ | .routing _ => true
  | _ => false

/-- No exchange waits for its client in the loop that started it. -/
def Settled (p : Point) (_ : Turn) : Prop := p ≠ .begun true .wantRead

namespace Slot

/-- The requests that were dispatched on this connection, in order. -/
def dispatched (s : Slot) : List HttpRequest := s.trail.routed.map Routed.req

/-- The requests whose answers went out, in order. -/
def completed (s : Slot) : List HttpRequest := s.trail.answers.map Answer.req

/-- Every request that was routed is answered but the current one. -/
def Open (s : Slot) : Prop := s.dispatched = s.completed ++ [s.hc.req]

/-- The next request is read. -/
structure Fetching (s : Slot) : Prop where
  up : s.px.fd = none
  phase : s.hc.phase = .read
  even : s.dispatched = s.completed

/-- An exchange of the current request goes on. -/
structure Relaying (s : Slot) : Prop where
  up : s.px.fd.isSome = true
  phase : s.hc.phase = .read
  proxying : s.proxying = true
  «open» : s.Open

/-- A response is sent. One that keeps the connection is for a request that was routed. -/
structure Answering (s : Slot) : Prop where
  up : s.px.fd = none
  phase : s.hc.phase ≠ .read
  «open» : s.hc.keep = true → s.Open

/-- What can go on while the slot waits for an event. -/
def Waiting (s : Slot) : Prop := s.Fetching ∨ s.Relaying ∨ s.Answering

/-- A response is complete. -/
structure Complete (s : Slot) : Prop where
  up : s.px.fd = none
  «open» : s.hc.keep = true → s.Open

/-- What `route_begin` leaves with the result `io`. -/
inductive Began (s : Slot) : HttpIo → Prop
  | waits (io : HttpIo) (hio : io.yields = true) (h : s.Relaying) : Began s io
  | done (h : s.Complete) : Began s .done
  | close : Began s .close
  | answer (h : s.Answering) : Began s .wantWrite

/-- No request was routed while an exchange went on. -/
def Calm (s : Slot) : Prop := ∀ r ∈ s.trail.routed, r.busy = false

/-- What goes on at a point. -/
def At (s : Slot) : Point → Prop
  | .rest => s.active = true → s.Waiting
  | .reading | .parsing _ | .routing _ => s.Fetching
  | .begun _ io => s.Began io
  | .writing _ => s.Answering
  | .applying .done => s.Complete
  | .applying .close => True
  | .applying _ => s.Waiting

end Slot

/-- What a handler keeps to. -/
structure Orderly (p : Point) (t : Turn) : Prop where
  calm : (Worker.slotOf t).Calm
  at_ : (Worker.slotOf t).At p

section Acts

variable {site : Site} {fuel now idx : Nat} {p q : Point} {t t' : Turn} {s : Slot}

/-- Where a result of `try_parse_buffer` leads. -/
theorem at_after (loop : Bool) {io : HttpIo} (hread : loop = true → io = .wantRead → s.Fetching)
    (h : s.At (.applying io)) : s.At (.after loop io) := by
  unfold Point.after
  split
  · rename_i hloop
    exact hread hloop.1 hloop.2
  · exact h

theorem at_applying {io : HttpIo} (hio : io.yields = true) (h : s.Waiting) :
    s.At (.applying io) := by
  cases io with
  | done => cases hio
  | close => cases hio
  | wantRead => exact h
  | wantWrite => exact h
  | idle => exact h

theorem waiting_of_at {io : HttpIo} (hio : io ≠ .done ∧ io ≠ .close) (h : s.At (.applying io)) :
    s.Waiting := by
  cases io with
  | done => exact absurd rfl hio.1
  | close => exact absurd rfl hio.2
  | wantRead => exact h
  | wantWrite => exact h
  | idle => exact h

theorem answering_applying (io : HttpIo) (h : s.Answering) : s.At (.applying io) := by
  cases io with
  | done => exact ⟨h.up, h.open⟩
  | close => trivial
  | wantRead => exact Or.inr (Or.inr h)
  | wantWrite => exact Or.inr (Or.inr h)
  | idle => exact Or.inr (Or.inr h)

/-- `slot_close` leaves the record of the connection alone. -/
theorem slotClose_trail (idx : Nat) (t : Turn) : (t.slotClose idx).trail = t.trail := by
  unfold Turn.slotClose
  split
  · rfl
  extract_lets src t₁ t₂ hc t₃
  show t₃.trail = t.trail
  unfold t₃
  split
  · rfl
  · rfl

theorem armEvents_trail (idx : Nat) (io : HttpIo) (t : Turn) :
    (t.armEvents idx io).trail = t.trail := by
  unfold Turn.armEvents
  split
  · rfl
  split
  · extract_lets r
    split
    · rfl
    · exact slotClose_trail idx { t with kernel := r.2 }
  · exact slotClose_trail idx t

theorem slotClose_orderly (idx : Nat) (h : (Worker.slotOf t).Calm) :
    Orderly .rest (t.slotClose idx) := by
  refine ⟨?_, fun hactive => ?_⟩
  · show ∀ r ∈ (t.slotClose idx).trail.routed, r.busy = false
    rw [slotClose_trail]
    exact h
  · have hactive : (t.slotClose idx).active = true := hactive
    cases hon : t.active with
    | false =>
        rw [Turn.slotClose_idle idx hon, hon] at hactive
        cases hactive
    | true =>
        rw [slotClose_inactive idx hon] at hactive
        cases hactive

/-- Arming the events is not a dispatch. -/
theorem armEvents_orderly {io : HttpIo} (hio : io ≠ .done ∧ io ≠ .close)
    (h : Orderly (.applying io) t) : Orderly .rest (t.armEvents idx io) := by
  have hwaiting : (Worker.slotOf t).Waiting := waiting_of_at hio h.at_
  unfold Turn.armEvents
  split
  · exact ⟨h.calm, fun _ => hwaiting⟩
  split
  · extract_lets r
    split
    · have hsame : Orderly .rest { t with kernel := r.2, armedIo := io } :=
        ⟨h.calm, fun _ => hwaiting.imp (fun hf => ⟨hf.up, hf.phase, hf.even⟩)
          (.imp (fun hr => ⟨hr.up, hr.phase, hr.proxying, hr.open⟩)
            fun ha => ⟨ha.up, ha.phase, ha.open⟩)⟩
      exact hsame
    · exact slotClose_orderly (t := { t with kernel := r.2 }) idx h.calm
  · exact slotClose_orderly idx h.calm

/-- What the proxy leaves of the current request. -/
theorem ends_began {u : Turn} {v : World} {io : HttpIo} (h : World.Ends t.world io v)
    (hphase : t.hc.phase = .read) (hu : u = { t.withWorld v with proxying := v.px.fd.isSome })
    (hopen : (Worker.slotOf u).Open) : (Worker.slotOf u).Began io := by
  subst hu
  cases h with
  | waits _ _ hio hup hread => exact .waits _ hio ⟨hup, hread.trans hphase, hup, hopen⟩
  | done _ hup => exact .done ⟨hup, fun _ => hopen⟩
  | close => exact .close
  | answer _ hup hwrite =>
      refine .answer ⟨hup, ?_, fun _ => hopen⟩
      show v.hc.phase ≠ .read
      rw [hwrite]
      exact nofun

theorem began_applying {io : HttpIo} (h : s.Began io) : s.At (.applying io) := by
  cases h with
  | waits _ hio h => exact at_applying hio (Or.inr (Or.inl h))
  | done h => exact h
  | close => trivial
  | answer h => exact answering_applying .wantWrite h

/-- The next event of an exchange, or of a slot without one. -/
theorem pump_orderly {io : HttpIo} (hactive : t.active = true) (h : t.pump fuel now = some (io, t'))
    (ho : Orderly .rest t) : Orderly (.applying io) t' := by
  obtain ⟨⟨io', v⟩, hv, hr⟩ := Option.map_eq_some_iff.1 h
  cases hr
  refine ⟨ho.calm, ?_⟩
  by_cases hup : t.px.fd = none
  · -- without an upstream socket the pump asks to close the slot
    have hidle : t.pump fuel now = some (.close, { t with proxying := false }) := pump_idle now hup
    have hio : io' = .close := congrArg Prod.fst (Option.some.inj (h.symm.trans hidle))
    show Slot.At _ (.applying io')
    rw [hio]
    trivial
  · rcases ho.at_ hactive with hf | hr | ha
    · exact absurd hf.up hup
    · have hreq : v.hc.req = t.hc.req := by
        have hlinked := World.proxyPump_linked hv
        exact World.client_get HttpConn.req hlinked.1
      refine began_applying (ends_began (World.proxyPump_ends hv) hr.phase rfl ?_)
      show t.trail.routed.map Routed.req = t.trail.answers.map Answer.req ++ [v.hc.req]
      rw [hreq]
      exact hr.open
    · exact absurd ha.up hup

/-- A response that the server makes itself. -/
theorem fixed_answering (resp : List UInt8) (status now : Nat) (hup : t.px.fd = none) :
    (Worker.slotOf (t.armClose resp status now)).Answering := ⟨hup, nofun, nofun⟩

theorem refused_orderly (now : Nat) (hcalm : (Worker.slotOf t).Calm) (hup : t.px.fd = none) :
    (Worker.slotOf (t.refused now)).Calm ∧ (Worker.slotOf (t.refused now)).Answering := by
  unfold Turn.refused
  rw [hup]
  exact ⟨hcalm, fixed_answering (t := t.settle) RESPONSE_431 431 now hup⟩

theorem routed_calm (hcalm : (Worker.slotOf t).Calm) (hup : t.px.fd = none) :
    (Worker.slotOf t.routed).Calm := by
  intro r hr
  rcases List.mem_append.1 hr with hr | hr
  · exact hcalm r hr
  · rw [List.mem_singleton.1 hr]
    show t.px.fd.isSome = false
    rw [hup]
    rfl

theorem routed_open (heven : (Worker.slotOf t).dispatched = (Worker.slotOf t).completed) :
    (Worker.slotOf t.routed).Open := by
  show (t.trail.routed ++ [_]).map Routed.req = t.trail.answers.map Answer.req ++ [t.hc.req]
  rw [List.map_append]
  have heven : t.trail.routed.map Routed.req = t.trail.answers.map Answer.req := heven
  rw [heven]
  rfl

/-- Each dispatch is of a head that was not dispatched before. -/
theorem reply_orderly (hparsed : httpParseRequest t.hc.buf = .ok t.hc.req)
    (h : Reply site now t.routed t') (hs : Stance p t) (hempty : t.Empty)
    (hcalm : (Worker.slotOf t).Calm) (hf : (Worker.slotOf t).Fetching) :
    (Worker.slotOf t').Calm ∧ (Worker.slotOf t').Answering := by
  have hgoes : Turn.Goes 0 t t.routed := routed_goes t
  have hopen := routed_open hf.even
  have hkept : ∀ u : Turn, u.trail = t.routed.trail → u.px = t.px → u.hc.req = t.hc.req →
      u.hc.phase ≠ .read → (Worker.slotOf u).Calm ∧ (Worker.slotOf u).Answering := by
    intro u htrail hpx hreq hphase
    refine ⟨?_, (congrArg ProxyConn.fd hpx).trans hf.up, hphase, fun _ => ?_⟩
    · show ∀ r ∈ u.trail.routed, r.busy = false
      rw [htrail]
      exact routed_calm hcalm hf.up
    · show u.trail.routed.map Routed.req = u.trail.answers.map Answer.req ++ [u.hc.req]
      rw [htrail, hreq]
      exact hopen
  obtain ⟨h', rfl⟩ := h.handler
  rcases reply_armed (t := t.routed) hparsed h (hgoes hs.fit).1 hempty with ha | ⟨resp, status, -, hfixed⟩
  · exact hkept _ rfl rfl ha.same.req ha.ready.phase
  · rw [hfixed]
    exact hkept _ rfl rfl rfl nofun

/-- The step lemma. -/
theorem Act.orderly (h : Act site fuel now idx (p, t) (q, t')) (hs : Stance p t)
    (hsettled : Settled p t) (ho : Orderly p t) : Orderly q t' := by
  have hcalm := ho.calm
  have hat := ho.at_
  cases h with
  | hangUp => exact slotClose_orderly idx hcalm
  | close => exact slotClose_orderly idx hcalm
  | gone _ io hio hoff => exact ⟨hcalm, fun _ => waiting_of_at hio hat⟩
  | arm _ io hio => exact armEvents_orderly hio ho
  | pump _ _ io hactive h => exact pump_orderly hactive h ho
  -- A slot that waits to write has nothing to fetch and relays nothing.
  | send _ hactive hphase =>
      rcases hat hactive with hf | hr | ha
      · exact absurd hf.phase hphase
      · exact absurd hr.phase hphase
      · exact ⟨hcalm, ha⟩
  | late => exact ⟨hcalm, trivial⟩
  -- A slot that reads, with no exchange, fetches.
  | resume _ hactive hidle hphase =>
      refine ⟨hcalm, ?_⟩
      rcases hat hactive with hf | hr | ha
      · exact hf
      · exact absurd (hr.proxying.symm.trans hidle) nofun
      · exact absurd hphase ha.phase
  | start _ hactive hidle hphase =>
      refine ⟨hcalm, ?_⟩
      rcases hat hactive with hf | hr | ha
      · exact hf
      · exact absurd (hr.proxying.symm.trans hidle) nofun
      · exact absurd hphase ha.phase
  | full =>
      obtain ⟨hcalm', ha⟩ := refused_orderly now hcalm hat.up
      exact ⟨hcalm', ha⟩
  | overlong _ loop =>
      obtain ⟨hcalm', ha⟩ := refused_orderly now hcalm hat.up
      exact ⟨hcalm', ha⟩
  | again => exact ⟨hcalm, hat.up, hat.phase, hat.even⟩
  | wait => exact ⟨hcalm, Or.inl ⟨hat.up, hat.phase, hat.even⟩⟩
  | ended => exact ⟨hcalm, trivial⟩
  | receive => exact ⟨hcalm, hat.up, hat.phase, hat.even⟩
  | empty _ loop => exact ⟨hcalm, at_after loop (fun _ _ => hat) (Or.inl hat)⟩
  | partialHead _ loop => exact ⟨hcalm, at_after loop (fun _ _ => hat) (Or.inl hat)⟩
  | bad => exact ⟨hcalm, fixed_answering (t := t.settle) RESPONSE_400 400 now hat.up⟩
  | unsupported => exact ⟨hcalm, fixed_answering (t := t.settle) RESPONSE_501 501 now hat.up⟩
  | unknown => exact ⟨hcalm, fixed_answering RESPONSE_501 501 now hat.up⟩
  | parse => exact ⟨hcalm, hat.up, hat.phase, hat.even⟩
  -- One request is routed, and its answer is armed.
  | reply _ _ loop hparsed hmethod h =>
      obtain ⟨hcalm', ha⟩ := reply_orderly hparsed h hs (hs.empty rfl) hcalm hat
      exact ⟨hcalm', .answer ha⟩
  -- One request is routed, and the exchange has begun.
  | proxy _ _ io r loop hparsed hmethod hroute htype h =>
      obtain ⟨⟨io', v⟩, hv, hr⟩ := Option.map_eq_some_iff.1 h
      cases hr
      have hidle : t.px.fd = none := hat.up
      have hreq : v.hc.req = t.hc.req := by
        have hbegun := World.proxyBegin_linked hv
        exact World.client_get HttpConn.req hbegun.1
      refine ⟨routed_calm hcalm hidle, ?_⟩
      refine ends_began (t := t.asking r) (World.proxyBegin_ends hidle hv) hat.phase rfl ?_
      show (t.trail.routed ++ [_]).map Routed.req = t.trail.answers.map Answer.req ++ [v.hc.req]
      rw [hreq]
      exact routed_open hat.even
  | deliver _ loop hphase =>
      refine ⟨hcalm, ?_⟩
      cases hat with
      | waits _ hio h => exact absurd h.phase hphase
      | answer h => exact h
  | return_ _ loop io h =>
      refine ⟨hcalm, at_after loop (fun hloop hio => ?_) (began_applying hat)⟩
      -- the loop must not take what an exchange waits for as its own
      exact absurd (by rw [hloop, hio]) hsettled
  | write _ loop =>
      have hphase := t.toHandler.httpConnOnWrite_phase now (hs.ready loop rfl)
      have ha : (Worker.slotOf (t.onWrite now).2).Answering := by
        refine ⟨hat.up, hphase.1, fun hkeep => ?_⟩
        have hkeep : (t.onWrite now).2.hc.keep = true := hkeep
        rw [show (t.onWrite now).2.hc.keep = t.hc.keep from onWrite_get HttpConn.keep now t] at hkeep
        show t.trail.routed.map Routed.req =
          t.trail.answers.map Answer.req ++ [(t.onWrite now).2.hc.req]
        rw [show (t.onWrite now).2.hc.req = t.hc.req from onWrite_get HttpConn.req now t]
        exact hat.open hkeep
      exact ⟨hcalm, at_after loop (fun _ hio => absurd hio hphase.2) (answering_applying _ ha)⟩
  | finish => exact ⟨hcalm, trivial⟩
  -- The answer is complete, and the connection is kept: the two records are equal again.
  | next _ hcont =>
      have hkeep : t.hc.keep = true := by
        unfold Turn.continues at hcont
        simp only [Bool.and_eq_true] at hcont
        exact hcont.1.1
      refine ⟨hcalm, hat.up, rfl, ?_⟩
      show t.trail.routed.map Routed.req = (t.trail.answers ++ [_]).map Answer.req
      rw [List.map_append]
      exact hat.open hkeep

end Acts

/-! ## Runs -/

section Runs

variable {site : Site} {fuel : Nat}

/-- A slot that a connection enters waits for its first request. -/
theorem admitted_orderly (w : Worker) (s : Slot) (fd now : Nat) (free : List Nat) (sched : Schedule)
    (disk : Disk) : Orderly .rest (w.admitted s fd now free sched disk) :=
  ⟨nofun, fun _ => Or.inl ⟨rfl, rfl, rfl⟩⟩

/-- A slot that epoll refused is as before its first request. -/
theorem rejected_orderly {w : Worker} {idx : Nat} (s : Slot) (fd now : Nat) {free : List Nat}
    (sched : Schedule) (disk : Disk) (hfree : w.freeStack = idx :: free) :
    Orderly .rest (w.rejected idx s fd now free sched disk) := by
  have hr := Worker.rejected_spec fd now sched disk hfree s
  have htrail : (w.rejected idx s fd now free sched disk).trail = .empty := hr.trail
  refine ⟨?_, fun _ => Or.inl ⟨hr.upstream, hr.conn.1, ?_⟩⟩
  · show ∀ r ∈ (w.rejected idx s fd now free sched disk).trail.routed, r.busy = false
    rw [htrail]
    exact nofun
  · show (w.rejected idx s fd now free sched disk).trail.routed.map Routed.req =
      (w.rejected idx s fd now free sched disk).trail.answers.map Answer.req
    rw [htrail]
    rfl

theorem orderlyRule (site : Site) (fuel : Nat) :
    SlotRule site fuel Settled Orderly fun s => s.Calm ∧ (s.active = true → s.Waiting) where
  unused := ⟨nofun, nofun⟩
  load := fun _ _ _ _ hactive hs => ⟨hs.1, fun _ => by
    rcases hs.2 hactive with hf | hr | ha
    · exact Or.inl ⟨hf.up, hf.phase, hf.even⟩
    · exact Or.inr (Or.inl ⟨hr.up, hr.phase, hr.proxying, hr.open⟩)
    · exact Or.inr (Or.inr ⟨ha.up, ha.phase, ha.open⟩)⟩
  enter := fun w s fd now free sched disk _ => admitted_orderly w s fd now free sched disk
  act := fun _ _ _ _ _ _ hs hok hact ho => hact.orderly hs hok ho
  store := fun _ ho => ⟨ho.calm, ho.at_⟩
  reject := fun _ _ s fd now _ sched disk hfree _ =>
    ⟨(rejected_orderly s fd now sched disk hfree).calm, (rejected_orderly s fd now sched disk hfree).at_⟩

/-- What holds at a point of a handler: requests are fetched only without an exchange, and
then each of those routed so far has its answer. -/
structure DispatchedOnce (p : Point) (t : Turn) : Prop where
  calm : ∀ r ∈ t.trail.routed, r.busy = false
  idle : p.fetches = true → t.px.fd = none
  once : p.fetches = true → t.trail.routed.map Routed.req = t.trail.answers.map Answer.req

/-- What is orderly dispatches each request once. -/
theorem Orderly.dispatchedOnce {p : Point} {t : Turn} (h : Orderly p t) : DispatchedOnce p t := by
  have hfetch : p.fetches = true → (Worker.slotOf t).Fetching := by
    intro hp
    have hat := h.at_
    cases p with
    | reading => exact hat
    | parsing => exact hat
    | routing => exact hat
    | rest => cases hp
    | begun => cases hp
    | writing => cases hp
    | applying => cases hp
  exact ⟨h.calm, fun hp => (hfetch hp).up, fun hp => (hfetch hp).even⟩

/-- While an exchange goes on, no act adds to the header buffer and none routes. -/
theorem Act.frozen {now idx : Nat} {p q : Point} {t t' : Turn}
    (h : Act site fuel now idx (p, t) (q, t')) (ho : Orderly p t)
    (hlive : t.px.fd.isSome = true) :
    t'.hc.buf = t.hc.buf ∧ t'.trail.routed = t.trail.routed := by
  have hnone : t.px.fd ≠ none := Option.isSome_iff_ne_none.1 hlive
  have hfetch : p.fetches = true → t'.hc.buf = t.hc.buf ∧ t'.trail.routed = t.trail.routed :=
    fun hp => absurd (ho.dispatchedOnce.idle hp) hnone
  cases h with
  | hangUp => exact ⟨(slotClose_kept idx t).1.buf, congrArg Trail.routed (slotClose_trail idx t)⟩
  | close => exact ⟨(slotClose_kept idx t).1.buf, congrArg Trail.routed (slotClose_trail idx t)⟩
  | arm _ io => exact ⟨(armEvents_kept idx io t).1.buf, congrArg Trail.routed (armEvents_trail idx io t)⟩
  | pump _ _ io hactive h =>
      obtain ⟨⟨io', v⟩, hv, hr⟩ := Option.map_eq_some_iff.1 h
      cases hr
      have hlinked := World.proxyPump_linked hv
      exact ⟨World.client_get HttpConn.buf hlinked.1, rfl⟩
  | write => exact ⟨(onWrite_kept now t).buf, rfl⟩
  | next => exact absurd (Slot.Complete.up ho.at_) hnone
  | send | late | deliver | return_ | finish | gone => exact ⟨rfl, rfl⟩
  | resume | start => exact ⟨rfl, rfl⟩
  | full | again | wait | ended | receive => exact hfetch rfl
  | empty | partialHead | overlong | bad | unsupported | parse => exact hfetch rfl
  | unknown | reply | proxy => exact hfetch rfl

/-- As long as no exchange comes back to the loop that started it, a worker reads, parses
and routes the requests of a connection only while the slot has no exchange. The requests
routed are then those answered, in order, and nothing that a handler does while an exchange
goes on adds to the header buffer or routes a request. -/
theorem reachable_dispatched (site : Site) (fuel n : Nat) (as : List Action)
    (hall : AllSteps (Worker.step site fuel) (Worker.Through site fuel Settled) (Worker.start n) as) :
    ∀ w ∈ runStates (Worker.step site fuel) (Worker.start n) as, ∀ p t,
      w.Handling site fuel Settled p t → DispatchedOnce p t ∧
        ∀ now idx q t', t.px.fd.isSome = true → Act site fuel now idx (p, t) (q, t') →
          t'.hc.buf = t.hc.buf ∧ t'.trail.routed = t.trail.routed := by
  intro w hw p t hhandling
  obtain ⟨-, ho⟩ := (orderlyRule site fuel).reachable hall hw hhandling
  exact ⟨ho.dispatchedOnce, fun now idx q t' hlive hact => hact.frozen ho hlive⟩

end Runs

/-! ## A body that comes late -/

/-- A head whose body does not come with it. -/
def splitHead : List UInt8 := cstr "POST / HTTP/1.1\r\nHost: a\r\nContent-Length: 5\r\n\r\n"

/-- The body comes after the exchange has asked for it. -/
def splitBodyRun : List Action :=
  [.accept (some 5) 0 0 { Schedule.quiet with
    clientReads := [.data splitHead, .wouldBlock, .data (cstr "hello")]
    sockets := [some 6, some 7]
    upstreamSends := [.sent 999, .sent 999, .sent 999] } .quiet]

/-- The request is routed again while its exchange goes on. -/
theorem splitBody_dispatchedTwice : ¬ ∀ w ∈ runStates (Worker.step proxySite 20) (Worker.start 1)
    splitBodyRun, ∀ s ∈ w.slots, ∀ r ∈ s.trail.routed, r.busy = false := by
  obtain ⟨w, hw, s, hs, r, hr, hbusy⟩ := exists_of_run
    (p := fun w : Worker => ∃ s ∈ w.slots, ∃ r ∈ s.trail.routed, r.busy = true)
    (show (runTo (Worker.step proxySite 20) (Worker.start 1) splitBodyRun).any _ = true by
      decide +kernel)
  intro hall
  rw [hall w hw s hs r hr] at hbusy
  cases hbusy

/-- The body comes with the head. -/
def wholeRequest : List UInt8 := splitHead ++ cstr "hello"

/-- The client sends all of its request at once, and the upstream takes it. -/
def wholeSched : Schedule := { Schedule.quiet with
  clientReads := [.data wholeRequest]
  sockets := [some 6]
  upstreamSends := [.sent 999, .sent 999] }

/-- The connection of that client. -/
def wholeAccept : Action := .accept (some 5) 0 0 wholeSched .quiet

/-- The handler of the request before it is routed. -/
def wholeEnter : Turn := (Worker.start 1).admitted .unused 5 0 [] wholeSched .quiet

/-- The handler before it routes the request. -/
def wholeTurn : Turn :=
  (wholeEnter.afterRead.2.received wholeRequest 0).parsed
    ((httpParseRequest wholeRequest).toOption.getD .zero)

/-- Everything goes to one upstream. -/
def upRoute : Route := ⟨.proxy, false, false, none, cstr "/", cstr "up", [1], 1⟩

/-- The exchange sends the request and waits for its upstream. -/
def wholeBegun : HttpIo × Turn :=
  (wholeTurn.routed.proxyBegin 20 upRoute 0).getD (.close, wholeTurn)

/-- The acts of the handler. -/
theorem whole_acts : ActsIn proxySite 20 0 0 Settled
    (.rest, wholeEnter) (.rest, wholeBegun.2.armEvents 0 .idle) := by
  have hparse : httpParseRequest wholeRequest =
      .ok ((httpParseRequest wholeRequest).toOption.getD .zero) := by decide +kernel
  have hio : wholeBegun.1 = .idle := by decide +kernel
  have hsome : (wholeTurn.routed.proxyBegin 20 upRoute 0).isSome = true := by decide +kernel
  have hbegin : wholeTurn.routed.proxyBegin 20 upRoute 0 = some (.idle, wholeBegun.2) := by
    obtain ⟨r, hr⟩ := Option.isSome_iff_exists.1 hsome
    have hbegun : wholeBegun = r := by
      unfold wholeBegun
      rw [hr]
      rfl
    rw [hr, ← hio, hbegun]
  have hread : wholeEnter.afterRead.1 = .got wholeRequest := by decide +kernel
  have hfirst : ActsIn proxySite 20 0 0 Settled (.rest, wholeEnter) (.routing true, wholeTurn) := by
    refine .head ⟨nofun, .start wholeEnter rfl rfl rfl (by decide) rfl⟩ ?_
    refine .head ⟨nofun, .receive wholeEnter wholeRequest (by decide) hread⟩ ?_
    exact .single ⟨nofun, .parse (wholeEnter.afterRead.2.received wholeRequest 0) _ true (by decide) hparse⟩
  have hproxy : Act proxySite 20 0 0 (.routing true, wholeTurn) (.begun true .idle, wholeBegun.2) :=
    .proxy wholeTurn wholeBegun.2 .idle upRoute true hparse (by decide +kernel) (by decide +kernel)
      rfl hbegin
  have hactive : wholeBegun.2.active = true := by decide +kernel
  refine hfirst.trans (.head ⟨nofun, hproxy⟩ ?_)
  refine .head ⟨nofun, .return_ wholeBegun.2 true .idle nofun⟩ ?_
  exact .single ⟨nofun, .arm wholeBegun.2 .idle ⟨nofun, nofun⟩ hactive⟩

theorem whole_step : (Worker.start 1).step proxySite 20 wholeAccept =
    some ((Worker.start 1).store 0 (wholeBegun.2.armEvents 0 .idle)) := rfl

theorem whole_through : Worker.Through proxySite 20 Settled (Worker.start 1) wholeAccept := by
  intro w hw
  have hlast : (Worker.start 1).store 0 (wholeBegun.2.armEvents 0 .idle) = w :=
    Option.some.inj (whole_step.symm.trans hw)
  have htend : Worker.Tend proxySite 20 Settled (Worker.start 1)
      ((Worker.start 1).store 0 (wholeBegun.2.armEvents 0 .idle)) :=
    .enter (Worker.start 1) 5 0 0 [] .unused wholeSched .quiet _ rfl rfl rfl whole_acts
  rw [hlast] at htend
  exact Or.inl (.single htend)

/-- The request is dispatched once. -/
theorem reachable_dispatched_whole : ∃ as, as = [wholeAccept] ∧
    ∃ w ∈ runStates (Worker.step proxySite 20) (Worker.start 1) as, ∃ s ∈ w.slots,
      s.px.fd = some 6 ∧ s.trail.routed.length = 1 ∧ ∀ r ∈ s.trail.routed, r.busy = false := by
  obtain ⟨as, has⟩ : ∃ as, as = [wholeAccept] := ⟨_, rfl⟩
  refine ⟨as, has, ?_⟩
  have hall : AllSteps (Worker.step proxySite 20) (Worker.Through proxySite 20 Settled)
      (Worker.start 1) as := .one has whole_through
  obtain ⟨w, hw, hon, s, hs, hactive, hup, hcount⟩ := exists_of_run
    (p := fun w : Worker => w.exited = false ∧ ∃ s ∈ w.slots, s.active = true ∧ s.px.fd = some 6 ∧
      s.trail.routed.length = 1)
    (show (runTo (Worker.step proxySite 20) (Worker.start 1) as).any _ = true by
      rw [has]
      decide +kernel)
  obtain ⟨k, hk⟩ := List.getElem?_of_mem hs
  have honce := (reachable_dispatched proxySite 20 1 as hall w hw .rest _
    (.load 0 k s .quiet .quiet hon hk hactive .refl)).1
  exact ⟨w, hw, s, hs, hup, hcount, honce.calm⟩

end TinyServer.Serve
