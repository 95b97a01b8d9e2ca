import TinyServer.Http.Cuts
import TinyServer.Proxy.Refine
import TinyServer.Routing.Match
import TinyServer.Serve.Slots
import TinyServer.Serve.Slotwise

/-!
# Requests that are too large

`try_parse_buffer` refuses a head that does not fit the header buffer, and so does the end
of the loop of `http_conn_on_read`. Where the loop ends because of a full buffer, though,
the head was complete: it was dispatched, and the exchange waits for more of the body. As
long as no handler comes there (`Room`), every 431 is for a head that is not complete in a
full buffer (`reachable_tooLarge`).
-/

set_option autoImplicit false

namespace TinyServer.Serve

open TinyServer.Http TinyServer.Net TinyServer.Proxy TinyServer.Static TinyServer.Routing
open TinyServer.Lib

/-- At the top of the read loop there is room in the header buffer. -/
def Room (p : Point) (t : Turn) : Prop := p = .reading → t.hc.used < t.hc.headerCap

/-- The answer 431 waits to be sent, or is being sent. -/
def TooLarge (hc : HttpConn) : Prop := hc.phase = .writeFixed ∧ hc.fixed = RESPONSE_431

/-- The header buffer is full, and its bytes are not yet a head. -/
structure Overfull (hc : HttpConn) : Prop where
  full : hc.used = TINY_HEADER_SIZE
  incomplete : httpParseRequest hc.buf = .error .incomplete

/-- A connection that answers 431 only to a head that does not fit. -/
structure Fair (active : Bool) (hc : HttpConn) : Prop where
  cap : active = true → hc.headerCap = TINY_HEADER_SIZE
  fits : hc.used ≤ hc.headerCap
  refusal : TooLarge hc → Overfull hc

section Fair

variable {site : Site} {fuel now idx : Nat} {p q : Point} {t t' : Turn}

/-- The request stays, and there is no new refusal. -/
theorem Fair.kept (hf : Fair t.active t.hc) (hactive : t'.active = true → t.active = true)
    (hkept : t.Kept t') (hrefusal : TooLarge t'.hc → TooLarge t.hc) : Fair t'.active t'.hc := by
  refine ⟨fun hon => ?_, ?_, fun htoo => ?_⟩
  · rw [hkept.headerCap]
    exact hf.cap (hactive hon)
  · unfold HttpConn.used
    rw [hkept.headerCap, hkept.buf]
    exact hf.fits
  · obtain ⟨hfull, hinc⟩ := hf.refusal (hrefusal htoo)
    refine ⟨?_, ?_⟩
    · unfold HttpConn.used
      rw [hkept.buf]
      exact hfull
    · rw [hkept.buf]
      exact hinc

/-- Another response is armed. -/
theorem armed_fair {active : Bool} {hc : HttpConn} (hf : Fair active hc) {resp : List UInt8}
    (status now : Nat) (hresp : resp ≠ RESPONSE_431) : Fair active (armFixed hc resp status now) :=
  ⟨hf.cap, hf.fits, fun htoo => absurd htoo.2 hresp⟩

theorem replies_tooLarge {w w' : World} (h : w.Replies w') (htoo : TooLarge w'.hc) :
    TooLarge w.hc := by
  obtain ⟨hphase, hfixed⟩ := htoo
  rcases h with h | ⟨resp, hresp, h⟩
  · have hphase' : w'.hc.phase = w.hc.phase := congrArg Prod.fst h
    have hfixed' : w'.hc.fixed = w.hc.fixed := congrArg (fun x => x.2.1) h
    exact ⟨hphase'.symm.trans hphase, hfixed'.symm.trans hfixed⟩
  · have hfixed' : w'.hc.fixed = resp := congrArg (fun x => x.2.1) h
    rw [← hfixed', hfixed] at hresp
    exact absurd hresp (by decide)

/-- The responses of `static.c` have other statuses. -/
theorem pending_not_tooLarge {hc : HttpConn} (h : Pending hc) : ¬ TooLarge hc := by
  intro htoo
  cases h with
  | fixed hphase hoff hfile hsays hline hstatus =>
      rw [htoo.2] at hline
      have hnone : ∀ status ∈ FIXED_STATUSES, ¬ StatusLine RESPONSE_431 status := by decide
      exact hnone _ hstatus hline
  | file fd n hphase =>
      rw [htoo.1] at hphase
      cases hphase

/-- No dispatched request is answered by 431. -/
theorem reply_fair (hparsed : httpParseRequest t.hc.buf = .ok t.hc.req) (h : Reply site now t t')
    (hfit : t.Fit) (hempty : t.Empty) : t.Kept t' ∧ ¬ TooLarge t'.hc := by
  rcases reply_armed hparsed h hfit hempty with ha | ⟨resp, status, hresp, rfl⟩
  · exact ⟨⟨ha.same.buf, ha.same.headerCap, ha.same.req⟩, pending_not_tooLarge ha.ready⟩
  · refine ⟨⟨rfl, rfl, rfl⟩, fun htoo => ?_⟩
    have hfixed : resp = RESPONSE_431 := htoo.2
    rw [hfixed] at hresp
    have hnone : ∀ x ∈ [(RESP_404, 404), (RESP_500, 500), (RESP_501, 501)],
        x.1 ≠ RESPONSE_431 := by decide
    exact hnone _ hresp rfl

theorem onWrite_tooLarge (now : Nat) (htoo : TooLarge (t.onWrite now).2.hc) : TooLarge t.hc := by
  obtain ⟨hphase, hfixed⟩ := htoo
  have hsame : (t.onWrite now).2.hc.fixed = t.hc.fixed :=
    onWrite_get HttpConn.fixed now t
  refine ⟨?_, hsame.symm.trans hfixed⟩
  rcases t.toHandler.httpConnOnWrite_next now with hnext | ⟨-, hnext⟩
  · exact hnext.symm.trans hphase
  · exact absurd (hnext.symm.trans hphase) nofun

/-- The rest of a handler: no refusal waits while a request is read. -/
structure FairAt (p : Point) (t : Turn) : Prop where
  fair : Fair t.active t.hc
  quiet : p.waits = true → ¬ TooLarge t.hc

theorem FairAt.after (loop : Bool) (io : HttpIo) (hf : Fair t.active t.hc)
    (hquiet : io = .wantRead → ¬ TooLarge t.hc) : FairAt (.after loop io) t := by
  refine ⟨hf, fun hwaits => hquiet ?_⟩
  unfold Point.after at hwaits
  split at hwaits
  · rename_i hread
    exact hread.2
  · cases hwaits

theorem not_tooLarge_read {hc : HttpConn} (hphase : hc.phase = .read) : ¬ TooLarge hc := by
  intro htoo
  rw [htoo.1] at hphase
  cases hphase

/-- The bytes read fit the buffer. -/
theorem received_fair (now : Nat) (hf : Fair t.active t.hc) {bytes : List UInt8}
    (hquiet : ¬ TooLarge t.hc) (hroom : t.hc.used < t.hc.headerCap)
    (hread : t.afterRead.1 = .got bytes) :
    Fair (t.afterRead.2.received bytes now).active (t.afterRead.2.received bytes now).hc := by
  refine ⟨hf.cap, ?_, fun htoo => absurd htoo hquiet⟩
  have hlen : bytes.length ≤ t.hc.headerCap - t.hc.used :=
    read_got (k := t.kernel) (e := .client) (Prod.ext hread rfl)
  show (t.hc.buf ++ bytes).length ≤ t.hc.headerCap
  rw [List.length_append]
  unfold HttpConn.used at hlen hroom
  omega

theorem refused_fair (now : Nat) (hf : Fair t.active t.hc) (hover : Overfull t.hc) :
    Fair (t.refused now).active (t.refused now).hc := by
  unfold Turn.refused
  split
  · exact ⟨hf.cap, hf.fits, fun _ => ⟨hover.full, hover.incomplete⟩⟩
  · exact ⟨hf.cap, hf.fits, fun _ => ⟨hover.full, hover.incomplete⟩⟩

/-- What follows the request moves to the front of the buffer. -/
theorem next_fair (now : Nat) (hf : Fair t.active t.hc) :
    Fair (t.answered.nextRequest now).active (t.answered.nextRequest now).hc := by
  obtain ⟨corkOn, hconn⟩ := t.answered.toHandler.httpConnCleanup_conn
  have hcap : (t.answered.nextRequest now).hc.headerCap = t.hc.headerCap := by
    show t.answered.toHandler.httpConnCleanup.hc.headerCap = _
    rw [hconn]
    rfl
  refine ⟨fun hon => ?_, ?_, fun htoo => absurd htoo (not_tooLarge_read rfl)⟩
  · rw [hcap]
    exact hf.cap hon
  · rw [hcap]
    show (t.hc.buf.drop t.hc.req.headerBytes).length ≤ _
    rw [List.length_drop]
    exact (Nat.sub_le _ _).trans hf.fits

/-- The step lemma. -/
theorem Act.fair (h : Act site fuel now idx (p, t) (q, t')) (hs : Stance p t) (hroom : Room p t)
    (hf : FairAt p t) : FairAt q t' := by
  have hactive : t'.active = true → t.active = true := by
    intro hon
    rcases h.leaves with hsame | ⟨hactive, -⟩
    · exact (congrArg Prod.fst hsame).symm.trans hon
    · exact hactive
  have hfair := hf.fair
  cases h with
  | hangUp =>
      obtain ⟨hkept, hreply⟩ := slotClose_kept idx t
      exact ⟨hfair.kept hactive hkept (replies_tooLarge hreply), nofun⟩
  | close =>
      obtain ⟨hkept, hreply⟩ := slotClose_kept idx t
      exact ⟨hfair.kept hactive hkept (replies_tooLarge hreply), nofun⟩
  | arm _ io hio hon =>
      obtain ⟨hkept, hreply⟩ := armEvents_kept idx io t
      exact ⟨hfair.kept hactive hkept (replies_tooLarge hreply), nofun⟩
  | pump _ _ io hon h =>
      obtain ⟨⟨io', v⟩, hv, hr⟩ := Option.map_eq_some_iff.1 h
      cases hr
      obtain ⟨hclient, hreply, -⟩ := World.proxyPump_linked hv
      exact ⟨hfair.kept hactive (withWorld_kept hclient _) (replies_tooLarge hreply), nofun⟩
  | send => exact ⟨hfair, nofun⟩
  | late => exact ⟨hfair, nofun⟩
  | resume _ hon hidle hphase => exact ⟨hfair, fun _ => not_tooLarge_read hphase⟩
  | start _ hon hidle hphase => exact ⟨hfair, fun _ => not_tooLarge_read hphase⟩
  -- The top of the read loop with a full buffer: this is what `Room` excludes.
  | full _ hfull => exact absurd hfull (not_le.2 (hroom rfl))
  | again => exact ⟨⟨hfair.cap, hfair.fits, hfair.refusal⟩, fun _ => hf.quiet rfl⟩
  | wait => exact ⟨⟨hfair.cap, hfair.fits, hfair.refusal⟩, nofun⟩
  | ended => exact ⟨⟨hfair.cap, hfair.fits, hfair.refusal⟩, nofun⟩
  | receive _ bytes hfull hread =>
      exact ⟨received_fair now hfair (hf.quiet rfl) (hroom rfl) hread, fun _ => hf.quiet rfl⟩
  | empty _ loop => exact .after loop .wantRead hfair fun _ => hf.quiet rfl
  | partialHead _ loop => exact .after loop .wantRead hfair fun _ => hf.quiet rfl
  -- The refusal that is meant: the buffer is full, and the head is not complete.
  | overlong _ loop hused hfull hparse =>
      have hcap := hfair.cap (hs.active nofun)
      have hover : Overfull t.hc := by
        refine ⟨?_, hparse⟩
        rw [← hcap]
        exact Nat.le_antisymm hfair.fits hfull
      exact ⟨refused_fair now hfair hover, nofun⟩
  | bad => exact ⟨armed_fair hfair 400 now (by decide), nofun⟩
  | unsupported => exact ⟨armed_fair hfair 501 now (by decide), nofun⟩
  | unknown => exact ⟨armed_fair hfair 501 now (by decide), nofun⟩
  | parse =>
      exact ⟨⟨hfair.cap, hfair.fits, fun htoo => absurd htoo (hf.quiet rfl)⟩, fun _ => hf.quiet rfl⟩
  -- An answer to a dispatched request is not 431.
  | reply _ _ loop hparsed hmethod h =>
      have hgoes : Turn.Goes idx t t.routed := routed_goes t
      obtain ⟨⟨hbuf, hcap, hreq⟩, hquiet⟩ := reply_fair (t := t.routed) hparsed h (hgoes hs.fit).1
        (hs.empty rfl)
      exact ⟨hfair.kept hactive ⟨hbuf, hcap, hreq⟩ fun htoo => absurd htoo hquiet, fun _ => hquiet⟩
  | proxy _ _ io r loop hparsed hmethod hroute htype h =>
      obtain ⟨⟨io', v⟩, hv, hr⟩ := Option.map_eq_some_iff.1 h
      cases hr
      obtain ⟨hclient, hreply, -⟩ := World.proxyBegin_linked hv
      have hclient : v.client = t.world.client := hclient
      have hreply : t.world.Replies v := hreply
      have hkept : t.Kept { t.withWorld v with proxying := v.px.fd.isSome } :=
        withWorld_kept hclient _
      refine ⟨hfair.kept hactive ⟨hkept.buf, hkept.headerCap, hkept.req⟩ (replies_tooLarge hreply),
        fun _ htoo => hf.quiet rfl (replies_tooLarge hreply htoo)⟩
  -- These acts do not touch the connection.
  | deliver => exact ⟨hfair, nofun⟩
  | return_ _ loop io h =>
      exact .after loop io hfair fun hio => hf.quiet (decide_eq_true hio)
  | write _ loop =>
      refine .after loop _ (hfair.kept hactive (onWrite_kept now t) (onWrite_tooLarge now)) ?_
      exact fun hio => absurd hio (t.toHandler.httpConnOnWrite_phase now (hs.ready loop rfl)).2
  | finish => exact ⟨⟨hfair.cap, hfair.fits, hfair.refusal⟩, nofun⟩
  | next hcont => exact ⟨next_fair now hfair, fun _ => not_tooLarge_read rfl⟩
  | gone => exact ⟨hfair, nofun⟩

end Fair

/-! ## Runs -/

section Runs

variable {site : Site} {fuel : Nat}

/-- Fairness is a rule for one slot. -/
theorem fairRule (site : Site) (fuel : Nat) :
    SlotRule site fuel Room FairAt fun s => Fair s.active s.hc where
  unused := ⟨nofun, Nat.le_refl _, fun htoo => absurd htoo (not_tooLarge_read rfl)⟩
  load := fun _ _ _ _ _ hs => ⟨hs, nofun⟩
  enter := fun _ _ _ _ _ _ _ _ =>
    ⟨⟨fun _ => rfl, Nat.zero_le _, fun htoo => absurd htoo (not_tooLarge_read rfl)⟩, nofun⟩
  act := fun _ _ _ _ _ _ hs hroom hact hf => hact.fair hs hroom hf
  store := fun _ hf => hf.fair
  reject := fun w idx s fd now free sched disk hfree _ => by
    obtain ⟨hphase, hbuf, hcap⟩ := (Worker.rejected_spec fd now sched disk hfree s).conn
    refine ⟨fun _ => hcap, ?_, fun htoo => absurd htoo (not_tooLarge_read hphase)⟩
    show (w.rejected idx s fd now free sched disk).hc.buf.length ≤ _
    rw [hbuf]
    exact Nat.zero_le _

/-- Without proxy routes no handler waits for more of a body. -/
structure Unproxied (p : Point) (t : Turn) : Prop where
  fair : FairAt p t
  room : Room p t
  begun : ∀ loop, p ≠ .begun loop .wantRead

theorem unproxied_after {t : Turn} (loop : Bool) (io : HttpIo) (hf : FairAt (.after loop io) t)
    (hroom : io = .wantRead → t.hc.used < t.hc.headerCap) : Unproxied (.after loop io) t := by
  refine ⟨hf, fun hreading => hroom ?_, fun loop' hbegun => ?_⟩
  · unfold Point.after at hreading
    split at hreading
    · rename_i hread
      exact hread.2
    · cases hreading
  · unfold Point.after at hbegun
    split at hbegun
    · cases hbegun
    · cases hbegun

/-- Without proxy routes no act links a slot to an upstream. -/
theorem Act.unproxied (hsite : ∀ r ∈ site.routes, r.type ≠ .proxy) {now idx : Nat} {p q : Point}
    {t t' : Turn} (h : Act site fuel now idx (p, t) (q, t')) (hs : Stance p t)
    (hu : Unproxied p t) : Unproxied q t' := by
  have hf := h.fair hs hu.room hu.fair
  have hpos : t.active = true → t.hc.used = 0 → t.hc.used < t.hc.headerCap := by
    intro hactive hused
    rw [hused, hu.fair.fair.cap hactive]
    decide
  cases h with
  | start _ hactive hidle hphase hdead hused => exact ⟨hf, fun _ => hpos hactive hused, nofun⟩
  | again => exact ⟨hf, fun _ => hu.room rfl, nofun⟩
  | empty _ loop hused =>
      exact unproxied_after loop .wantRead hf fun _ => hpos (hs.active nofun) hused
  | partialHead _ loop hroom => exact unproxied_after loop .wantRead hf fun _ => not_le.1 hroom
  | return_ _ loop io h =>
      exact unproxied_after loop io hf fun hio => absurd (by rw [hio]) (hu.begun loop)
  | write _ loop =>
      refine unproxied_after loop _ hf fun hio => ?_
      exact absurd hio (t.toHandler.httpConnOnWrite_phase now (hs.ready loop rfl)).2
  | proxy _ _ io r loop hparsed hmethod hroute htype =>
      exact absurd htype (hsite r (routeMatch_mem hroute).1)
  | _ => exact ⟨hf, nofun, nofun⟩

theorem unproxiedRule (fuel : Nat) (hsite : ∀ r ∈ site.routes, r.type ≠ .proxy) :
    SlotRule site fuel anyState Unproxied fun s => Fair s.active s.hc where
  unused := (fairRule site fuel).unused
  load := fun w s sched disk hactive hs =>
    ⟨(fairRule site fuel).load w s sched disk hactive hs, nofun, nofun⟩
  enter := fun w s fd now free sched disk hs =>
    ⟨(fairRule site fuel).enter w s fd now free sched disk hs, nofun, nofun⟩
  act := fun _ _ _ _ _ _ hs _ hact hu => hact.unproxied hsite hs hu
  store := fun _ hu => hu.fair.fair
  reject := (fairRule site fuel).reject

/-- Without proxy routes every run meets the condition. -/
theorem unproxied_through (hsite : ∀ r ∈ site.routes, r.type ≠ .proxy) (fuel n : Nat)
    (as : List Action) :
    AllSteps (Worker.step site fuel) (Worker.Through site fuel Room) (Worker.start n) as :=
  (unproxiedRule fuel hsite).through (fun _ _ hu => hu.room) n as

/-- As long as no handler comes to the top of its read loop with a full header buffer, a
worker answers 431 only where the buffer is full and the parser finds no complete head in
it; then no part of the buffer from its start is a complete head either. -/
theorem reachable_tooLarge (site : Site) (fuel n : Nat) (as : List Action)
    (hall : AllSteps (Worker.step site fuel) (Worker.Through site fuel Room) (Worker.start n) as) :
    ∀ w ∈ runStates (Worker.step site fuel) (Worker.start n) as, ∀ p t,
      w.Handling site fuel Room p t → TooLarge t.hc →
        Overfull t.hc ∧ ∀ k req, httpParseRequest (t.hc.buf.take k) ≠ .ok req := by
  intro w hw p t hhandling htoo
  obtain ⟨-, hf⟩ := (fairRule site fuel).reachable hall hw hhandling
  have hover := hf.fair.refusal htoo
  refine ⟨hover, fun k req hok => ?_⟩
  have hlen : t.hc.buf.length ≤ HTTP_PARSE_MAX_LEN := by
    rw [show t.hc.buf.length = TINY_HEADER_SIZE from hover.full]
    decide
  have hinc := hover.incomplete
  rw [httpParseRequest_of_le hlen] at hinc
  rw [httpParseRequest_of_le ((List.length_take_le' k _).trans hlen)] at hok
  have hhead := parse_append_of_head (p := t.hc.buf.take k) (by rw [hok]; exact nofun)
    (by rw [hok]; exact nofun) (t.hc.buf.drop k)
  rw [List.take_append_drop, hinc, hok] at hhead
  cases hhead

end Runs

/-- A site without routes. -/
def emptySite : Site := ⟨[], none, false⟩

/-- A head that does not end in 4096 bytes. The answer waits for the client. -/
def longHeadRun : List Action :=
  [.accept (some 5) 0 0 { Schedule.quiet with
    clientReads := [.data (cstr "GET /" ++ List.replicate 4091 (97 : UInt8))]
    clientSends := [.wouldBlock] } .quiet]

theorem reachable_tooLarge_long : ∃ as, as = longHeadRun ∧
    ∃ w ∈ runStates (Worker.step emptySite 20) (Worker.start 1) as,
      ∃ s ∈ w.slots, TooLarge s.hc ∧ Overfull s.hc := by
  have hsite : ∀ r ∈ emptySite.routes, r.type ≠ .proxy := nofun
  obtain ⟨as, has⟩ : ∃ as, as = longHeadRun := ⟨_, rfl⟩
  refine ⟨as, has, ?_⟩
  obtain ⟨w, hw, hon, hslots⟩ := exists_of_run
    (p := fun w : Worker => w.exited = false ∧
      w.slots.map (fun s => (s.active, s.hc.phase, s.hc.fixed)) = [(true, .writeFixed, RESPONSE_431)])
    (show (runTo (Worker.step emptySite 20) (Worker.start 1) as).any _ = true by
      rw [has]
      decide +kernel)
  obtain ⟨s, hs, hfacts⟩ := List.map_eq_singleton_iff.1 hslots
  simp only [Prod.mk.injEq] at hfacts
  obtain ⟨hactive, hphase, hfixed⟩ := hfacts
  have hslot : w.slots[0]? = some s := by rw [hs, List.getElem?_cons_zero]
  have hall := unproxied_through hsite 20 1 as
  have hover := (reachable_tooLarge emptySite 20 1 as hall w hw .rest _
    (.load 0 0 s .quiet .quiet hon hslot hactive .refl) ⟨hphase, hfixed⟩).1
  exact ⟨w, hw, s, List.mem_of_getElem? hslot, ⟨hphase, hfixed⟩, hover⟩

/-- A request with a body, of which 4096 bytes come at once. -/
def longBodyRun : List Action :=
  [.accept (some 5) 0 0 { Schedule.quiet with
    clientReads := [.data (cstr "POST / HTTP/1.1\r\nHost: a\r\nContent-Length: 9999\r\n\r\n" ++
      List.replicate 4046 (120 : UInt8)), .wouldBlock]
    sockets := [some 6]
    upstreamSends := [.sent 9999, .sent 9999]
    clientSends := [.sent 50] } .quiet]

/-- A proxied request is answered 431 although its head has 50 bytes. -/
theorem longBody_tooLarge : ¬ ∀ w ∈ runStates (Worker.step proxySite 20) (Worker.start 1) longBodyRun,
    ∀ s ∈ w.slots, TooLarge s.hc → httpParseRequest s.hc.buf = .error .incomplete := by
  obtain ⟨w, hw, s, hs, hphase, hfixed, hparse⟩ := exists_of_run
    (p := fun w : Worker => ∃ s ∈ w.slots, s.hc.phase = .writeFixed ∧ s.hc.fixed = RESPONSE_431 ∧
      (httpParseRequest s.hc.buf).toOption.map (·.headerBytes) = some 50)
    (show (runTo (Worker.step proxySite 20) (Worker.start 1) longBodyRun).any _ = true by
      decide +kernel)
  intro hall
  rw [hall w hw s hs ⟨hphase, hfixed⟩] at hparse
  cases hparse

end TinyServer.Serve
