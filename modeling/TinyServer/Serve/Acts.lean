import Mathlib.Logic.Relation
import TinyServer.Serve.Loop

/-!
# What a worker does for one slot, act by act

The functions of `http.c` call each other in nested loops: `http_conn_on_read` parses and
dispatches, `apply_io` ends a response and parses again. `Act` lists the single acts with
the control points between which they lead, and `onEvent_acts` says that handling an event
is a sequence of acts. What every act keeps is then kept by every event
(`Acts.invariant`).
-/

set_option autoImplicit false

namespace TinyServer.Serve

open TinyServer.Http TinyServer.Net TinyServer.Proxy TinyServer.Static TinyServer.Routing

/-! ## Acts -/

/-- The responses that `route_begin` makes itself. -/
inductive Reply (site : Site) (now : Nat) (t : Turn) : Turn → Prop
  | docroot : Reply site now t
      (t.withHandler (t.toHandler.staticBegin site.allowDotfiles site.docroot now))
  | file (r : Route) : Reply site now t (t.withHandler (t.toHandler.staticBeginFile r.target now))
  | mount (r : Route) : Reply site now t
      (Turn.serveMount site t r ((requestPath t.hc).1.take (requestPath t.hc).2.toNat) now)
  | fixed (resp : List UInt8) (status : Nat)
      (h : (resp, status) ∈ [(RESP_404, 404), (RESP_500, 500), (RESP_501, 501)]) :
      Reply site now t (t.armClose resp status now)

/-- Where a handler is. `loop` says that the loop of `http_conn_on_read` has called
`try_parse_buffer`, not `http_conn_reuse`. -/
inductive Point where
  | rest
  | reading
  | parsing (loop : Bool)
  | routing (loop : Bool)
  | begun (loop : Bool) (io : HttpIo)
  | writing (loop : Bool)
  | applying (io : HttpIo)
  deriving DecidableEq, Repr

/-- Where a result of `try_parse_buffer` leads. -/
def Point.after (loop : Bool) (io : HttpIo) : Point :=
  if loop ∧ io = .wantRead then .reading else .applying io

namespace Turn

/-- The route that `route_begin` finds for the request. -/
def route (site : Site) (t : Turn) : Option Route :=
  routeMatch site ((requestPath t.hc).1.take (requestPath t.hc).2.toNat)

/-- The turn of a head that does not fit, before its answer is sent. -/
def refused (t : Turn) (now : Nat) : Turn :=
  (if t.px.fd.isSome then t else t.settle).armClose RESPONSE_431 431 now

/-- The turn of a request that is parsed. -/
def parsed (t : Turn) (req : HttpRequest) : Turn :=
  { t.settle with hc := { t.hc with req := req } }

/-- The record of a request that is routed. -/
def routed (t : Turn) : Turn :=
  { t with trail := { t.trail with routed := t.trail.routed ++
    [⟨t.hc.req, t.hc.buf.take t.hc.req.headerBytes, t.hc.used, t.px.fd.isSome⟩] } }

/-- The record of a response that is complete. -/
def answered (t : Turn) : Turn :=
  { t with trail := { t.trail with answers := t.trail.answers ++
    [⟨t.hc.req, t.kernel.wire.clientOut, t.hc.keep, continues t.hc, t.kernel.wire.conns,
      t.parked⟩] } }

/-- The client has been read. -/
def afterRead (t : Turn) : ReadOutcome × Turn :=
  let r := t.kernel.read .client (t.hc.headerCap - t.hc.used)
  (r.1, { t with kernel := r.2 })

/-- Bytes of the client are in the header buffer. -/
def received (t : Turn) (bytes : List UInt8) (now : Nat) : Turn :=
  { t with hc := { t.hc with buf := t.hc.buf ++ bytes, lastActiveMs := now } }

end Turn

/-- One act of a handler of the slot `idx`. -/
inductive Act (site : Site) (fuel now idx : Nat) : Point × Turn → Point × Turn → Prop
  -- the event loop
  | hangUp (t : Turn) : Act site fuel now idx (.rest, t) (.rest, t.slotClose idx)
  | pump (t t' : Turn) (io : HttpIo) (hactive : t.active = true)
      (h : t.pump fuel now = some (io, t')) :
      Act site fuel now idx (.rest, t) (.applying io, t')
  | send (t : Turn) (hactive : t.active = true) (hphase : t.hc.phase ≠ .read) :
      Act site fuel now idx (.rest, t) (.writing false, t)
  | late (t : Turn) (hactive : t.active = true) (hidle : t.proxying = false)
      (hphase : t.hc.phase = .read)
      (hdead : t.hc.deadlineMs ≤ now) : Act site fuel now idx (.rest, t) (.applying .close, t)
  | resume (t : Turn) (hactive : t.active = true) (hidle : t.proxying = false)
      (hphase : t.hc.phase = .read) (hdead : ¬ t.hc.deadlineMs ≤ now) (hused : 0 < t.hc.used) :
      Act site fuel now idx (.rest, t) (.parsing true, t)
  | start (t : Turn) (hactive : t.active = true) (hidle : t.proxying = false)
      (hphase : t.hc.phase = .read) (hdead : ¬ t.hc.deadlineMs ≤ now) (hused : t.hc.used = 0) :
      Act site fuel now idx (.rest, t) (.reading, t)
  -- the loop of `http_conn_on_read`
  | full (t : Turn) (hfull : t.hc.headerCap ≤ t.hc.used) :
      Act site fuel now idx (.reading, t) (.writing false, t.refused now)
  | again (t : Turn) (hroom : ¬ t.hc.headerCap ≤ t.hc.used)
      (hread : t.afterRead.1 = .interrupted) :
      Act site fuel now idx (.reading, t) (.reading, t.afterRead.2)
  | wait (t : Turn) (hroom : ¬ t.hc.headerCap ≤ t.hc.used)
      (hread : t.afterRead.1 = .wouldBlock) :
      Act site fuel now idx (.reading, t) (.applying .wantRead, t.afterRead.2)
  | ended (t : Turn) (hroom : ¬ t.hc.headerCap ≤ t.hc.used)
      (hread : t.afterRead.1 = .error ∨ t.afterRead.1 = .eof) :
      Act site fuel now idx (.reading, t) (.applying .close, t.afterRead.2)
  | receive (t : Turn) (bytes : List UInt8) (hroom : ¬ t.hc.headerCap ≤ t.hc.used)
      (hread : t.afterRead.1 = .got bytes) :
      Act site fuel now idx (.reading, t) (.parsing true, t.afterRead.2.received bytes now)
  -- `try_parse_buffer` and `dispatch_parsed`
  | empty (t : Turn) (loop : Bool) (hused : t.hc.used = 0) :
      Act site fuel now idx (.parsing loop, t) (.after loop .wantRead, t)
  | partialHead (t : Turn) (loop : Bool) (hroom : ¬ t.hc.headerCap ≤ t.hc.used)
      (hparse : httpParseRequest t.hc.buf = .error .incomplete) :
      Act site fuel now idx (.parsing loop, t) (.after loop .wantRead, t)
  | overlong (t : Turn) (loop : Bool) (hused : t.hc.used ≠ 0) (hfull : t.hc.headerCap ≤ t.hc.used)
      (hparse : httpParseRequest t.hc.buf = .error .incomplete) :
      Act site fuel now idx (.parsing loop, t) (.writing loop, t.refused now)
  | bad (t : Turn) (loop : Bool) (hused : t.hc.used ≠ 0)
      (hparse : httpParseRequest t.hc.buf = .error .bad) :
      Act site fuel now idx (.parsing loop, t)
        (.writing loop, t.settle.armClose RESPONSE_400 400 now)
  | unsupported (t : Turn) (loop : Bool) (hused : t.hc.used ≠ 0)
      (hparse : httpParseRequest t.hc.buf = .error .unsupported) :
      Act site fuel now idx (.parsing loop, t)
        (.writing loop, t.settle.armClose RESPONSE_501 501 now)
  | parse (t : Turn) (req : HttpRequest) (loop : Bool) (hused : t.hc.used ≠ 0)
      (hparse : httpParseRequest t.hc.buf = .ok req) :
      Act site fuel now idx (.parsing loop, t) (.routing loop, t.parsed req)
  -- `route_begin`
  | unknown (t : Turn) (loop : Bool) (hparsed : httpParseRequest t.hc.buf = .ok t.hc.req)
      (hmethod : t.hc.req.method = .unknown) :
      Act site fuel now idx (.routing loop, t) (.writing loop, t.armClose RESPONSE_501 501 now)
  | reply (t t' : Turn) (loop : Bool) (hparsed : httpParseRequest t.hc.buf = .ok t.hc.req)
      (hmethod : t.hc.req.method ≠ .unknown) (h : Reply site now t.routed t') :
      Act site fuel now idx (.routing loop, t) (.begun loop .wantWrite, t')
  | proxy (t t' : Turn) (io : HttpIo) (r : Route) (loop : Bool)
      (hparsed : httpParseRequest t.hc.buf = .ok t.hc.req) (hmethod : t.hc.req.method ≠ .unknown)
      (hroute : t.route site = some r) (htype : r.type = .proxy)
      (h : t.routed.proxyBegin fuel r now = some (io, t')) :
      Act site fuel now idx (.routing loop, t) (.begun loop io, t')
  | deliver (t : Turn) (loop : Bool) (hphase : t.hc.phase ≠ .read) :
      Act site fuel now idx (.begun loop .wantWrite, t) (.writing loop, t)
  | return_ (t : Turn) (loop : Bool) (io : HttpIo) (h : ¬ (io = .wantWrite ∧ t.hc.phase ≠ .read)) :
      Act site fuel now idx (.begun loop io, t) (.after loop io, t)
  | write (t : Turn) (loop : Bool) :
      Act site fuel now idx (.writing loop, t) (.after loop (t.onWrite now).1, (t.onWrite now).2)
  -- `apply_io`
  | finish (t : Turn) (h : Turn.continues t.hc = false) :
      Act site fuel now idx (.applying .done, t) (.applying .close, t.answered)
  | next (t : Turn) (h : Turn.continues t.hc = true) :
      Act site fuel now idx (.applying .done, t) (.parsing false, t.answered.nextRequest now)
  | close (t : Turn) : Act site fuel now idx (.applying .close, t) (.rest, t.slotClose idx)
  | gone (t : Turn) (io : HttpIo) (hio : io ≠ .done ∧ io ≠ .close) (hactive : t.active = false) :
      Act site fuel now idx (.applying io, t) (.rest, t)
  | arm (t : Turn) (io : HttpIo) (hio : io ≠ .done ∧ io ≠ .close) (hactive : t.active = true) :
      Act site fuel now idx (.applying io, t) (.rest, t.armEvents idx io)

/-- Acts one after the other. -/
def Acts (site : Site) (fuel now idx : Nat) : Point × Turn → Point × Turn → Prop :=
  Relation.ReflTransGen (Act site fuel now idx)

/-- Acts one after the other, each in a state that meets `ok`. -/
def ActsIn (site : Site) (fuel now idx : Nat) (ok : Point → Turn → Prop) :
    Point × Turn → Point × Turn → Prop :=
  Relation.ReflTransGen fun x y => ok x.1 x.2 ∧ Act site fuel now idx x y

/-- The condition that every state meets. -/
def anyState : Point → Turn → Prop := fun _ _ => True

section Acts

variable {site : Site} {fuel now idx : Nat} {x y z : Point × Turn}

theorem Act.acts (h : Act site fuel now idx x y) : Acts site fuel now idx x y := .single h

theorem Acts.trans (h : Acts site fuel now idx x y) (h' : Acts site fuel now idx y z) :
    Acts site fuel now idx x z := Relation.ReflTransGen.trans h h'

/-- The invariant rule. -/
theorem ActsIn.invariant {ok I : Point → Turn → Prop}
    (hact : ∀ p t q u, ok p t → Act site fuel now idx (p, t) (q, u) → I p t → I q u)
    (h : ActsIn site fuel now idx ok x y) (hx : I x.1 x.2) : I y.1 y.2 := by
  induction h with
  | refl => exact hx
  | tail _ hact' ih => exact hact _ _ _ _ hact'.1 hact'.2 ih

/-- Where an invariant gives the condition, the acts meet it. -/
theorem Acts.within {ok I : Point → Turn → Prop} (hok : ∀ p t, I p t → ok p t)
    (hact : ∀ p t q u, Act site fuel now idx (p, t) (q, u) → I p t → I q u)
    (h : Acts site fuel now idx x y) (hx : I x.1 x.2) : ActsIn site fuel now idx ok x y := by
  have hboth : ActsIn site fuel now idx ok x y ∧ I y.1 y.2 := by
    induction h with
    | refl => exact ⟨.refl, hx⟩
    | tail _ hact' ih => exact ⟨ih.1.tail ⟨hok _ _ ih.2, hact'⟩, hact _ _ _ _ hact' ih.2⟩
  exact hboth.1

theorem ActsIn.acts {ok : Point → Turn → Prop} (h : ActsIn site fuel now idx ok x y) :
    Acts site fuel now idx x y := by
  induction h with
  | refl => exact .refl
  | tail _ hact ih => exact ih.tail hact.2

theorem Acts.inAny (h : Acts site fuel now idx x y) :
    ActsIn site fuel now idx anyState x y := by
  induction h with
  | refl => exact .refl
  | tail _ hact ih => exact ih.tail ⟨trivial, hact⟩

/-- A weaker condition. -/
theorem ActsIn.mono {ok ok' : Point → Turn → Prop} (hok : ∀ p t, ok p t → ok' p t)
    (h : ActsIn site fuel now idx ok x y) : ActsIn site fuel now idx ok' x y :=
  Relation.ReflTransGen.mono (fun _ _ hact => ⟨hok _ _ hact.1, hact.2⟩) _ _ h

/-- The invariant rule without a condition. -/
theorem Acts.invariant {I : Point → Turn → Prop}
    (hact : ∀ p t q u, Act site fuel now idx (p, t) (q, u) → I p t → I q u)
    (h : Acts site fuel now idx x y) (hx : I x.1 x.2) : I y.1 y.2 := by
  induction h with
  | refl => exact hx
  | tail _ hact' ih => exact hact _ _ _ _ hact' ih

end Acts

/-- A response that the server makes itself touches the handler's state alone. -/
theorem Reply.handler {site : Site} {now : Nat} {t t' : Turn} (h : Reply site now t t') :
    ∃ h : Handler, t' = t.withHandler h := by
  cases h with
  | docroot => exact ⟨_, rfl⟩
  | file => exact ⟨_, rfl⟩
  | fixed resp status => exact ⟨{ t.toHandler with hc := armFixed t.hc resp status now }, rfl⟩
  | mount r =>
      generalize (requestPath t.hc).1.take (requestPath t.hc).2.toNat = path
      unfold Turn.serveMount
      extract_lets cut loc
      by_cases hshort : path.length ≤ cut
      · rw [if_pos hshort]
        exact ⟨_, rfl⟩
      rw [if_neg hshort]
      by_cases hslash : path[cut]? ≠ some SLASH
      · rw [if_pos hslash]
        exact ⟨{ t.toHandler with hc := armFixed t.hc RESP_500 500 now }, rfl⟩
      · rw [if_neg hslash]
        exact ⟨_, rfl⟩

/-! ## The functions -/

section Functions

variable {site : Site} {fuel now idx : Nat} {t t' : Turn} {io : HttpIo}

/-- What `route_begin` does is one act, unless the method is unknown. -/
theorem routeBegin_acts (loop : Bool) (hparsed : httpParseRequest t.hc.buf = .ok t.hc.req)
    (hmethod : t.hc.req.method ≠ .unknown) (h : t.routeBegin site fuel now = some (io, t')) :
    Act site fuel now idx (.routing loop, t) (.begun loop io, t') := by
  have hfixed : ∀ resp status, (resp, status) ∈ [(RESP_404, 404), (RESP_500, 500), (RESP_501, 501)] →
      some (HttpIo.wantWrite, t.routed.armClose resp status now) = some (io, t') →
        Act site fuel now idx (.routing loop, t) (.begun loop io, t') := by
    intro resp status hresp he
    cases he
    exact .reply t _ loop hparsed hmethod (.fixed resp status hresp)
  have hdocroot : some (HttpIo.wantWrite, t.routed.withHandler
      (t.routed.toHandler.staticBegin site.allowDotfiles site.docroot now)) = some (io, t') →
        Act site fuel now idx (.routing loop, t) (.begun loop io, t') := by
    intro he
    cases he
    exact .reply t _ loop hparsed hmethod .docroot
  unfold Turn.routeBegin at h
  extract_lets rec src t₁ static loc path at h
  split at h
  · exact hdocroot h
  split at h
  · exact hfixed _ _ (by simp) h
  rename_i r hr
  split at h
  · split at h
    · cases h
      exact .reply t _ loop hparsed hmethod (.file r)
    split at h
    · exact hdocroot h
    · cases h
      exact .reply t _ loop hparsed hmethod (.mount r)
  · rename_i htype
    exact .proxy t t' io r loop hparsed hmethod hr htype h
  · exact hfixed _ _ (by simp) h
  · exact hfixed _ _ (by simp) h

/-- What is done with a head that is parsed, or refused as malformed. -/
theorem dispatchParsed_acts (loop : Bool) (hused : t.hc.used ≠ 0)
    (hcomplete : httpParseRequest t.hc.buf ≠ .error .incomplete)
    (h : t.settle.dispatchParsed site fuel (httpParseRequest t.hc.buf) now = some (io, t')) :
    Acts site fuel now idx (.parsing loop, t) (.after loop io, t') := by
  unfold Turn.dispatchParsed at h
  cases hparse : httpParseRequest t.hc.buf with
  | error e =>
      rw [hparse] at h hcomplete
      cases e with
      | incomplete => exact absurd rfl hcomplete
      | bad =>
          cases h
          exact (Act.bad t loop hused hparse).acts.trans (Act.write _ loop).acts
      | unsupported =>
          cases h
          exact (Act.unsupported t loop hused hparse).acts.trans (Act.write _ loop).acts
  | ok req =>
      rw [hparse] at h
      refine (Act.parse t req loop hused hparse).acts.trans ?_
      simp only at h
      split at h
      · rename_i hmethod
        cases h
        exact (Act.unknown (t.parsed req) loop hparse hmethod).acts.trans (Act.write _ loop).acts
      rename_i hmethod
      split at h
      · cases h
      rename_i io' u hroute
      have hact : Act site fuel now idx (.routing loop, t.parsed req) (.begun loop io', u) :=
        routeBegin_acts loop hparse hmethod hroute
      refine hact.acts.trans ?_
      split at h
      · rename_i hwrite
        cases h
        rw [hwrite.1]
        exact (Act.deliver u loop hwrite.2).acts.trans (Act.write u loop).acts
      · rename_i hwrite
        cases h
        exact (Act.return_ t' loop io hwrite).acts

/-- A head that is refused is answered by an error and written at once. -/
theorem refuseHead_acts (loop : Bool) (t : Turn) : Acts site fuel now idx
    (.writing loop, t.refused now) (.after loop (t.refuseHead now).1, (t.refuseHead now).2) :=
  (Act.write (t.refused now) loop).acts

/-- `try_parse_buffer`. -/
theorem tryParseBuffer_acts (loop : Bool) (h : t.tryParseBuffer site fuel now = some (io, t')) :
    Acts site fuel now idx (.parsing loop, t) (.after loop io, t') := by
  unfold Turn.tryParseBuffer at h
  split at h
  · rename_i hused
    cases h
    exact (Act.empty t loop hused).acts
  rename_i hused
  split at h
  · rename_i hparse
    split at h
    · rename_i hfull
      cases h
      exact (Act.overlong t loop hused hfull hparse).acts.trans (refuseHead_acts loop t)
    · rename_i hroom
      cases h
      exact (Act.partialHead t loop hroom hparse).acts
  · rename_i hcomplete
    exact dispatchParsed_acts loop hused hcomplete h

theorem after_of_ne {loop : Bool} (h : io ≠ .wantRead) : Point.after loop io = .applying io :=
  if_neg fun hc => h hc.2

/-- One round of the read loop of `http_conn_on_read`. -/
theorem readLoop_succ (n : Nat) (t : Turn) : Turn.readLoop site fuel now (n + 1) t =
    if t.hc.headerCap ≤ t.hc.used then some (t.refuseHead now)
    else
      match t.afterRead.1 with
      | .interrupted => Turn.readLoop site fuel now n t.afterRead.2
      | .wouldBlock => some (.wantRead, t.afterRead.2)
      | .error | .eof => some (.close, t.afterRead.2)
      | .got bytes =>
          match (t.afterRead.2.received bytes now).tryParseBuffer site fuel now with
          | none => none
          | some (io, t) => if io = .wantRead then Turn.readLoop site fuel now n t else some (io, t) :=
  rfl

/-- The loop of `http_conn_on_read`. -/
theorem readLoop_acts (n : Nat) : ∀ {t : Turn}, Turn.readLoop site fuel now n t = some (io, t') →
    Acts site fuel now idx (.reading, t) (.applying io, t') := by
  induction n with
  | zero => exact fun h => by cases h
  | succ n ih =>
      intro t h
      rw [readLoop_succ] at h
      split at h
      · rename_i hfull
        cases h
        exact (Act.full t hfull).acts.trans (refuseHead_acts false t)
      rename_i hroom
      cases hread : t.afterRead.1 with
      | interrupted =>
          rw [hread] at h
          exact (Act.again t hroom hread).acts.trans (ih h)
      | wouldBlock =>
          rw [hread] at h
          cases h
          exact (Act.wait t hroom hread).acts
      | error =>
          rw [hread] at h
          cases h
          exact (Act.ended t hroom (Or.inl hread)).acts
      | eof =>
          rw [hread] at h
          cases h
          exact (Act.ended t hroom (Or.inr hread)).acts
      | got bytes =>
          rw [hread] at h
          refine (Act.receive t bytes hroom hread).acts.trans ?_
          simp only at h
          split at h
          · cases h
          rename_i io' u hparse
          have hacts : Acts site fuel now idx (.parsing true, t.afterRead.2.received bytes now)
              (.after true io', u) := tryParseBuffer_acts true hparse
          refine hacts.trans ?_
          split at h
          · rename_i hio
            rw [hio]
            exact ih h
          · rename_i hio
            cases h
            rw [after_of_ne hio]
            exact .refl

/-- `http_conn_on_read` on a slot that is not proxied. -/
theorem httpConnOnRead_acts (hactive : t.active = true) (hidle : t.proxying = false)
    (hphase : t.hc.phase = .read) (h : t.httpConnOnRead site fuel now = some (io, t')) :
    Acts site fuel now idx (.rest, t) (.applying io, t') := by
  unfold Turn.httpConnOnRead at h
  split at h
  · rename_i hwrite
    exact absurd hphase hwrite
  split at h
  · rename_i hdead
    cases h
    exact (Act.late t hactive hidle hphase hdead).acts
  rename_i hdead
  split at h
  · rename_i hused
    refine (Act.resume t hactive hidle hphase hdead hused).acts.trans ?_
    split at h
    · cases h
    rename_i io' u hparse
    have hacts : Acts site fuel now idx (.parsing true, t) (.after true io', u) :=
      tryParseBuffer_acts true hparse
    refine hacts.trans ?_
    split at h
    · rename_i hio
      rw [hio]
      exact readLoop_acts fuel h
    · rename_i hio
      cases h
      rw [after_of_ne hio]
      exact .refl
  · rename_i hused
    exact (Act.start t hactive hidle hphase hdead (Nat.le_zero.1 (not_lt.1 hused))).acts.trans
      (readLoop_acts fuel h)

/-- `http_conn_reuse`. -/
theorem httpConnReuse_acts (h : t.httpConnReuse site fuel now = some (io, t')) :
    Acts site fuel now idx (.applying .done, t) (.applying io, t') := by
  unfold Turn.httpConnReuse at h
  extract_lets answer src t₁ at h
  split at h
  · rename_i hend
    obtain ⟨hio, ht⟩ := Prod.mk.inj (Option.some.inj h)
    rw [← hio, ← ht]
    exact (Act.finish t (by simpa using hend)).acts
  · rename_i hnext
    have hacts : Acts site fuel now idx (.parsing false, t.answered.nextRequest now)
        (.after false io, t') := tryParseBuffer_acts false h
    exact (Act.next t (by simpa using hnext)).acts.trans hacts

/-- The loop over pipelined requests ends with a result other than `HTTP_IO_DONE`. -/
theorem doneLoop_acts (n : Nat) : ∀ {io : HttpIo} {t : Turn} {r : HttpIo × Turn},
    Turn.doneLoop site fuel now n io t = some r →
      r.1 ≠ .done ∧ Acts site fuel now idx (.applying io, t) (.applying r.1, r.2) := by
  have hstay : ∀ (n : Nat) {io : HttpIo} {t : Turn} {r : HttpIo × Turn}, io ≠ .done →
      Turn.doneLoop site fuel now n io t = some r →
        r.1 ≠ .done ∧ Acts site fuel now idx (.applying io, t) (.applying r.1, r.2) := by
    intro n io t r hio h
    have hr : r = (io, t) := by
      cases n with
      | zero => cases io <;> first | exact absurd rfl hio | exact (Option.some.inj h).symm
      | succ n => cases io <;> first | exact absurd rfl hio | exact (Option.some.inj h).symm
    rw [hr]
    exact ⟨hio, .refl⟩
  induction n with
  | zero =>
      intro io t r h
      by_cases hio : io = .done
      · rw [hio] at h
        cases h
      · exact hstay 0 hio h
  | succ n ih =>
      intro io t r h
      by_cases hio : io = .done
      · rw [hio] at h ⊢
        rw [Turn.doneLoop] at h
        split at h
        · cases h
        rename_i io' u hreuse
        obtain ⟨hlast, hacts⟩ := ih h
        exact ⟨hlast, (httpConnReuse_acts hreuse).trans hacts⟩
      · exact hstay (n + 1) hio h

/-- `apply_io`. -/
theorem applyIo_acts (h : t.applyIo site fuel now idx io = some t') :
    Acts site fuel now idx (.applying io, t) (.rest, t') := by
  obtain ⟨⟨io', u⟩, hloop, rfl⟩ := Option.map_eq_some_iff.1 h
  obtain ⟨hdone, hacts⟩ : _ ∧ Acts site fuel now idx (.applying io, t) (.applying io', u) :=
    doneLoop_acts fuel hloop
  refine hacts.trans ?_
  by_cases hclose : io' = .close
  · simp only [hclose, if_true]
    exact (Act.close u).acts
  · simp only [if_neg hclose]
    cases hactive : u.active with
    | true => exact (Act.arm u io' ⟨hdone, hclose⟩ hactive).acts
    | false => exact (Act.gone u io' ⟨hdone, hclose⟩ hactive).acts

/-- The body of the event loop. -/
theorem onEvent_acts {ev : Event} (hactive : t.active = true)
    (h : t.onEvent site fuel now ev = some t') : Acts site fuel now ev.idx (.rest, t) (.rest, t') := by
  unfold Turn.onEvent at h
  split at h
  · split at h
    · cases h
      exact (Act.hangUp t).acts
    split at h
    · cases h
    rename_i io u hpump
    exact (Act.pump t u io hactive hpump).acts.trans (applyIo_acts h)
  rename_i hproxy
  have hidle : t.proxying = false := by
    cases hp : t.proxying with
    | true => exact absurd (Or.inr hp) hproxy
    | false => rfl
  split at h
  · cases h
    exact (Act.hangUp t).acts
  split at h
  · cases h
  rename_i u hread
  have hacts : Acts site fuel now ev.idx (.rest, t) (.rest, u) := by
    unfold Turn.onReadEvent at hread
    split at hread
    · rename_i hinp
      split at hread
      · cases hread
      · rename_i io v hon
        exact (httpConnOnRead_acts hactive hidle hinp.2 hon).trans (applyIo_acts hread)
    · cases hread
      exact .refl
  refine hacts.trans ?_
  split at h
  · cases h
    exact .refl
  rename_i hopen
  have hactive' : u.active = true := by simpa using hopen
  unfold Turn.onWriteEvent at h
  split at h
  · rename_i hout
    exact ((Act.send u hactive' hout.2).acts.trans (Act.write u false).acts).trans (applyIo_acts h)
  · cases h
    exact .refl

end Functions

end TinyServer.Serve
