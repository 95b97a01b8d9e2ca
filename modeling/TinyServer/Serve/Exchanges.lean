import TinyServer.Http.Stream
import TinyServer.Serve.Capped
import TinyServer.Serve.Replies

/-!
# A connection as a stream of requests

The bytes that a client has sent are the heads of the requests dispatched so far, one after
the other, and what follows them (`Slot.Reads`). While a request is fetched this rest is the
header buffer; while one is answered it is what follows its head, and a proxied exchange sends
upstream the part of it that the request declares (`Slot.Owes`). A connection goes on only
after a response that says so, to a request without a body, so the next head is where the
last one ended.
-/

set_option autoImplicit false

namespace TinyServer.Serve

open TinyServer.Http TinyServer.Net TinyServer.Proxy TinyServer.Static TinyServer.Routing
open TinyServer.Lib

/-! ## Answers -/

/-- For a request that was dispatched, the bytes of the file that it is answered with, where
they are known and stay the same while they are sent. -/
abbrev Files : Type := Routed → Option (Nat → UInt8)

/-- A complete response: all of it went out, and the connection goes on as its head says. -/
structure Answer.Whole (a : Answer) (content : Option (Nat → UInt8)) : Prop where
  told : WholeResponse content a.req a.out a.conns a.keep
  continued : a.continued = a.keep
  asked : a.keep = true → httpShouldKeepalive a.req = true

/-- A complete response to the request. -/
def Answers (files : Files) (r : Routed) (a : Answer) : Prop := a.req = r.req ∧ a.Whole (files r)

/-- The requests of a connection were answered one after the other, each once, but for the last
one, which may have no answer yet. What is not dispatched is refused by an answer of no
request (bytes that are not a request, a head without end, a method that is unknown), and the
connection ends with that. -/
inductive Answered (files : Files) : List Routed → List Answer → Prop
  | all {rs : List Routed} {as : List Answer} (h : List.Forall₂ (Answers files) rs as) :
      Answered files rs as
  | pending {rs : List Routed} {as : List Answer} (r : Routed)
      (h : List.Forall₂ (Answers files) rs as) : Answered files (rs ++ [r]) as
  | refused {rs : List Routed} {as : List Answer} (a : Answer)
      (h : List.Forall₂ (Answers files) rs as) (hwhole : a.Whole none) (hkeep : a.keep = false) :
      Answered files rs (as ++ [a])

/-! ## What a slot shows -/

namespace Slot

/-- What the relay moves see of a slot. -/
def relay (s : Slot) : Relay where
  up := s.px.fd.isSome
  clientPhase := s.hc.phase
  req := s.hc.req
  input := s.hc.buf
  px := s.px.core
  clientIn := s.wire.clientIn
  clientOut := s.wire.clientOut
  conns := s.wire.conns
  wrapped := s.wrapped

/-- All bytes read from the client. -/
def arrived (s : Slot) : List UInt8 := s.trail.arrived ++ s.wire.clientIn

/-- The heads of the dispatched requests. -/
def heads (s : Slot) : List (List UInt8 × HttpRequest) := s.trail.routed.map fun r => (r.head, r.req)

/-- The client has sent the heads of the dispatched requests, and then `rest`. -/
def Reads (s : Slot) (rest : List UInt8) : Prop := Splits decodeHead s.arrived s.heads rest

/-- No request is complete in the header buffer. -/
def Stuck (s : Slot) : Prop := ∀ q req, q <+: s.hc.buf → decodeHead q ≠ some req

/-- The declared length of a request body. -/
def bodyNeed (req : HttpRequest) : Nat := if req.flags.contentLength then req.contentLength else 0

/-- Each upstream connection was sent part of the last dispatched request: of its head, as
`rewrite_request` makes it, and of as many bytes of the client's stream as it declares. -/
def Owes (s : Slot) : Prop :=
  ∀ c ∈ s.wire.conns, ∃ r head rest, s.trail.routed.getLast? = some r ∧
    rewriteRequest r.head = some head ∧ s.Reads rest ∧ c.sent <+: head ++ rest.take (bodyNeed r.req)

/-- The response that is sent next: to the last dispatched request, or to bytes that are not
a request. -/
inductive Due (files : Files) (s : Slot) : Option (Nat → UInt8) → Prop
  | request (rs : List Routed) (r : Routed) (hrouted : s.trail.routed = rs ++ [r])
      (hreq : r.req = s.hc.req) (hanswered : List.Forall₂ (Answers files) rs s.trail.answers) :
      Due files s (files r)
  | refusal (hkeep : s.hc.keep = false)
      (hanswered : List.Forall₂ (Answers files) s.trail.routed s.trail.answers) : Due files s none

/-- A response is being sent. -/
def Responds (files : Files) (s : Slot) : Prop := ∃ content, s.Due files content ∧ s.Sends content

/-- A response went out. -/
def Responded (files : Files) (s : Slot) : Prop := ∃ content, s.Due files content ∧ s.Told content

/-- The next request is fetched. -/
structure Fetches (files : Files) (s : Slot) : Prop where
  reads : s.Reads s.hc.buf
  wrapped : s.wrapped = false
  answered : List.Forall₂ (Answers files) s.trail.routed s.trail.answers

/-- The current request is the last one dispatched. -/
structure Current (files : Files) (s : Slot) : Prop where
  last : ∃ rs r, s.trail.routed = rs ++ [r] ∧ r.head = s.hc.buf.take s.hc.req.headerBytes ∧
    r.req = s.hc.req ∧ List.Forall₂ (Answers files) rs s.trail.answers
  reads : Splits decodeHead s.trail.arrived s.heads (s.hc.buf.drop s.hc.req.headerBytes)
  whole : s.hc.req.headerBytes ≤ s.hc.buf.length

/-- The current request is relayed. -/
structure Relays (files : Files) (s : Slot) : Prop where
  live : ∃ w head, Underway w head s.relay
  current : s.Current files

/-- What keeping the connection rests on. -/
structure Leads (s : Slot) : Prop where
  asked : s.hc.keep = true → httpShouldKeepalive s.hc.req = true
  whole : s.hc.keep = true → s.hc.req.headerBytes ≤ s.hc.buf.length
  reads : s.hc.keep = true → s.Reads (s.hc.buf.drop s.hc.req.headerBytes)
  wrapped : s.wrapped = false

/-- A slot that waits. -/
structure Sound (files : Files) (s : Slot) : Prop where
  fetches : s.px.fd = none → s.hc.phase = .read → s.Fetches files ∧ s.Stuck
  relays : s.px.fd.isSome = true → s.Relays files
  answers : s.hc.phase ≠ .read → s.Leads ∧ s.Responds files

/-- What a result says of the slot. -/
def Comes (files : Files) (s : Slot) : HttpIo → Prop
  | .done => s.Leads ∧ s.Responded files
  | .close => True
  | _ => s.Sound files

/-- What a slot shows at a point. -/
def Shows (files : Files) (s : Slot) : Point → Prop
  | .rest => s.active = true → s.Sound files
  | .reading => s.Fetches files ∧ s.Stuck
  | .parsing _ | .routing _ => s.Fetches files
  | .begun _ io => s.Comes files io
  | .writing _ => s.Leads ∧ s.Responds files
  | .applying io => s.Comes files io

end Slot

/-- What `sendfile` moves are the bytes of the file that the request is answered with. -/
def Delivering (files : Files) (p : Point) (t : Turn) : Prop :=
  (∃ loop, p = .writing loop) → ∀ r, t.trail.routed.getLast? = some r → Supplied (files r) t.toHandler

/-- What is asked of a run: no exchange comes back to the loop that started it, and the files
that are sent are as `files` says. -/
def Minds (files : Files) (p : Point) (t : Turn) : Prop := Settled p t ∧ Delivering files p t

/-- What a handler shows at a point. -/
structure Faithful (files : Files) (p : Point) (t : Turn) : Prop where
  answers : Answered files t.trail.routed t.trail.answers
  reads : ∃ rest, (Worker.slotOf t).Reads rest
  owes : (Worker.slotOf t).Owes
  fresh : ∀ loop, p = .routing loop → t.kernel.wire = .empty
  shows : (Worker.slotOf t).Shows files p

/-! ## The record -/

/-- Two slots read their streams from the same record. -/
structure SameRecord (s s' : Slot) : Prop where
  arrived : s'.trail.arrived = s.trail.arrived
  routed : s'.trail.routed = s.trail.routed
  clientIn : s'.wire.clientIn = s.wire.clientIn
  conns : s'.wire.conns = s.wire.conns

section Record

variable {files : Files} {s s' : Slot} {rest : List UInt8} {t t' : Turn} {idx : Nat}

theorem Slot.Reads.of_eq (h : s.Reads rest) (harrived : s'.arrived = s.arrived)
    (hrouted : s'.trail.routed = s.trail.routed) : s'.Reads rest := by
  unfold Slot.Reads Slot.heads at h ⊢
  rw [harrived, hrouted]
  exact h

theorem SameRecord.reads (h : SameRecord s s') (hr : s.Reads rest) : s'.Reads rest := by
  refine hr.of_eq ?_ h.routed
  unfold Slot.arrived
  rw [h.arrived, h.clientIn]

theorem SameRecord.owes (h : SameRecord s s') (ho : s.Owes) : s'.Owes := by
  intro c hc
  rw [h.conns] at hc
  obtain ⟨r, head, rest, hlast, hhead, hr, hsent⟩ := ho c hc
  refine ⟨r, head, rest, ?_, hhead, h.reads hr, hsent⟩
  rw [h.routed]
  exact hlast

theorem Slot.Current.of_eq (h : s.Current files) (harrived : s'.trail.arrived = s.trail.arrived)
    (hrouted : s'.trail.routed = s.trail.routed) (hanswers : s'.trail.answers = s.trail.answers)
    (hreq : s'.hc.req = s.hc.req) (hbuf : s'.hc.buf = s.hc.buf) : s'.Current files := by
  obtain ⟨rs, r, hlast, hhead, hrreq, hanswered⟩ := h.last
  refine ⟨⟨rs, r, hrouted.trans hlast, ?_, hrreq.trans hreq.symm, ?_⟩, ?_, ?_⟩
  · rw [hreq, hbuf]
    exact hhead
  · rw [hanswers]
    exact hanswered
  · unfold Slot.heads
    rw [harrived, hrouted, hreq, hbuf]
    exact h.reads
  · rw [hreq, hbuf]
    exact h.whole

theorem Slot.owes_of_nil (h : s.wire.conns = []) : s.Owes := by
  intro c hc
  rw [h] at hc
  cases hc

/-- Two slots show the same: they differ in how epoll and the worker know them. -/
structure SameView (s s' : Slot) : Prop where
  px : s'.px = s.px
  hc : s'.hc = s.hc
  wrapped : s'.wrapped = s.wrapped
  trail : s'.trail = s.trail
  wire : traffic s'.wire = traffic s.wire

theorem SameView.record (h : SameView s s') : SameRecord s s' :=
  ⟨congrArg Trail.arrived h.trail, congrArg Trail.routed h.trail, congrArg Prod.fst h.wire,
    congrArg (fun x => x.2.2) h.wire⟩

theorem SameView.relay (h : SameView s s') : s'.relay = s.relay := by
  have hin : s'.wire.clientIn = s.wire.clientIn := congrArg Prod.fst h.wire
  have hout : s'.wire.clientOut = s.wire.clientOut := congrArg (fun x => x.2.1) h.wire
  have hconns : s'.wire.conns = s.wire.conns := congrArg (fun x => x.2.2) h.wire
  unfold Slot.relay
  rw [h.px, h.hc, h.wrapped, hin, hout, hconns]

theorem Slot.Sends.of_same {content : Option (Nat → UInt8)} (h : s.Sends content)
    (hv : SameView s s') : s'.Sends content := by
  have hout : s'.wire.clientOut = s.wire.clientOut := congrArg (fun x => x.2.1) hv.wire
  have hhc := hv.hc
  cases h with
  | text cont hcont hphase hsent htext =>
      rw [← hhc] at hphase hsent htext
      exact .text cont hcont hphase (hout.trans hsent) htext
  | head n hphase hsent hhead hoff =>
      rw [← hhc] at hphase hsent hhead hoff
      exact .head n hphase (hout.trans hsent) hhead hoff
  | file n body hphase hsent hhead hbody hoff hle hbytes =>
      rw [← hhc] at hphase hsent hhead hbody hoff
      exact .file n body hphase (hout.trans hsent) hhead hbody hoff hle hbytes

/-- What is due is read off the record, the request and whether the connection is kept. -/
theorem Slot.Due.of_eq {content : Option (Nat → UInt8)} (h : s.Due files content)
    (hrouted : s'.trail.routed = s.trail.routed) (hanswers : s'.trail.answers = s.trail.answers)
    (hreq : s'.hc.req = s.hc.req) (hkeep : s'.hc.keep = s.hc.keep) : s'.Due files content := by
  cases h with
  | request rs r hlast hr hanswered =>
      refine .request rs r (hrouted.trans hlast) (hr.trans hreq.symm) ?_
      rw [hanswers]
      exact hanswered
  | refusal hno hanswered =>
      refine .refusal (hkeep.trans hno) ?_
      rw [hrouted, hanswers]
      exact hanswered

theorem Slot.Responds.of_same (h : s.Responds files) (hv : SameView s s') : s'.Responds files := by
  obtain ⟨content, hdue, hsends⟩ := h
  refine ⟨content, hdue.of_eq ?_ ?_ ?_ ?_, hsends.of_same hv⟩
  · rw [hv.trail]
  · rw [hv.trail]
  · rw [hv.hc]
  · rw [hv.hc]

theorem Slot.Leads.of_same (h : s.Leads) (hv : SameView s s') : s'.Leads := by
  have hhc := hv.hc
  refine ⟨?_, ?_, fun hk => ?_, hv.wrapped.trans h.wrapped⟩
  · rw [hhc]
    exact h.asked
  · rw [hhc]
    exact h.whole
  · rw [hhc] at hk ⊢
    exact hv.record.reads (h.reads hk)

theorem Slot.Sound.of_same (h : s.Sound files) (hv : SameView s s') : s'.Sound files := by
  have hhc := hv.hc
  refine ⟨fun hup hread => ?_, fun hup => ?_, fun hwrite => ?_⟩
  · rw [hv.px] at hup
    rw [hhc] at hread
    obtain ⟨hf, hstuck⟩ := h.fetches hup hread
    refine ⟨⟨?_, hv.wrapped.trans hf.wrapped, ?_⟩, ?_⟩
    · rw [hhc]
      exact hv.record.reads hf.reads
    · rw [hv.trail]
      exact hf.answered
    · unfold Slot.Stuck
      rw [hhc]
      exact hstuck
  · rw [hv.px] at hup
    obtain ⟨hlive, hcur⟩ := h.relays hup
    refine ⟨?_, hcur.of_eq hv.record.arrived hv.record.routed (congrArg Trail.answers hv.trail) ?_ ?_⟩
    · rw [hv.relay]
      exact hlive
    · rw [hhc]
    · rw [hhc]
  · rw [hhc] at hwrite
    obtain ⟨hleads, hresponds⟩ := h.answers hwrite
    exact ⟨hleads.of_same hv, hresponds.of_same hv⟩

theorem httpConnCleanup_traffic (h : Handler) :
    traffic h.httpConnCleanup.kernel.wire = traffic h.kernel.wire := by
  unfold Handler.httpConnCleanup
  extract_lets h₁ src h₂
  have hrelease : traffic h₂.kernel.wire = traffic h.kernel.wire := Handler.releaseFile_traffic h
  split
  · exact hrelease
  · split
    · exact hrelease
    · exact hrelease

/-- `slot_close` leaves the record alone. -/
theorem slotClose_record (idx : Nat) (t : Turn) :
    SameRecord (Worker.slotOf t) (Worker.slotOf (t.slotClose idx)) := by
  have htrail := slotClose_trail idx t
  have hwire : traffic (t.slotClose idx).kernel.wire = traffic t.kernel.wire := by
    unfold Turn.slotClose
    split
    · rfl
    extract_lets src t₁ t₂ hc t₃
    obtain ⟨hr, -⟩ := proxyClose_released t.world
    have h₁ : traffic t₁.kernel.wire = traffic t.kernel.wire := by
      show (_, _, _) = (_, _, _)
      rw [show t₁.kernel.wire.clientIn = _ from hr.clientIn,
        show t₁.kernel.wire.clientOut = _ from hr.clientOut,
        show t₁.kernel.wire.conns = _ from hr.conns]
      rfl
    have h₂ : traffic t₂.kernel.wire = traffic t.kernel.wire :=
      (httpConnCleanup_traffic t₁.toHandler).trans h₁
    show traffic t₃.kernel.wire = _
    unfold t₃
    split
    · exact h₂
    · exact h₂
  exact ⟨congrArg Trail.arrived htrail, congrArg Trail.routed htrail, congrArg Prod.fst hwire,
    congrArg (fun x => x.2.2) hwire⟩

theorem armEvents_record (idx : Nat) (io : HttpIo) (t : Turn) :
    SameRecord (Worker.slotOf t) (Worker.slotOf (t.armEvents idx io)) := by
  unfold Turn.armEvents
  split
  · exact ⟨rfl, rfl, rfl, rfl⟩
  split
  · extract_lets r
    split
    · exact ⟨rfl, rfl, rfl, rfl⟩
    · obtain ⟨harrived, hrouted, hin, hconns⟩ := slotClose_record idx { t with kernel := r.2 }
      exact ⟨harrived, hrouted, hin, hconns⟩
  · exact slotClose_record idx t

/-- The handler goes on with the same record. -/
theorem Faithful.go {p q : Point} (h : Faithful files p t)
    (hrec : SameRecord (Worker.slotOf t) (Worker.slotOf t'))
    (hanswers : t'.trail.answers = t.trail.answers) (hq : ∀ loop, q ≠ .routing loop)
    (hshows : (Worker.slotOf t').Shows files q) : Faithful files q t' := by
  obtain ⟨rest, hreads⟩ := h.reads
  refine ⟨?_, ⟨rest, hrec.reads hreads⟩, hrec.owes h.owes, fun loop hl => absurd hl (hq loop), hshows⟩
  have hrouted : t'.trail.routed = t.trail.routed := hrec.routed
  rw [hrouted, hanswers]
  exact h.answers

end Record

/-! ## What a handler finds in its buffer -/

section Buffer

variable {s : Slot}

theorem stuck_of_incomplete (h : httpParseRequest s.hc.buf = .error .incomplete) : s.Stuck := by
  rintro q req ⟨tail, htail⟩ hq
  have hparse := httpParseRequest_of_decodeHead hq tail
  rw [htail, h] at hparse
  cases hparse

theorem stuck_of_empty (h : s.hc.buf = []) : s.Stuck := by
  intro q req hq hdecode
  rw [h, List.prefix_nil] at hq
  rw [hq, prefixFree_decodeHead.nil] at hdecode
  cases hdecode

end Buffer

/-! ## Results of the proxy -/

section Proxy

variable {files : Files} {w : World} {u : Turn} {io : HttpIo}

/-- A request that may be kept has no body. -/
theorem bodyNeed_of_keepalive {req : HttpRequest} (h : httpShouldKeepalive req = true) :
    Slot.bodyNeed req = 0 := by
  unfold httpShouldKeepalive at h
  unfold Slot.bodyNeed
  split at h
  · cases h
  split at h
  · cases h
  split at h
  · cases h
  split at h
  · cases h
  rename_i hbody
  split
  · rename_i hcl
    exact Nat.eq_zero_of_not_pos fun hpos => hbody ⟨hcl, hpos⟩
  · rfl

/-- What is left of a request that was relayed. -/
theorem leads_owes (hsent : SentOwed w u.world) (hcur : (Worker.slotOf u).Current files)
    (hreq : u.hc.req = w.hc.req) (hbuf : u.hc.buf = w.hc.buf) : (Worker.slotOf u).Owes := by
  obtain ⟨rs, r, hrouted, hhead, hrreq, -⟩ := hcur.last
  have hhead : r.head = u.hc.buf.take u.hc.req.headerBytes := hhead
  have hrreq : r.req = u.hc.req := hrreq
  have hlast : (Worker.slotOf u).trail.routed.getLast? = some r := by
    rw [hrouted, List.getLast?_concat]
  intro c hc
  obtain ⟨head, hrewrite, hle⟩ := hsent c hc
  refine ⟨r, head, u.hc.buf.drop u.hc.req.headerBytes ++ u.kernel.wire.clientIn, hlast, ?_, ?_, ?_⟩
  · rw [hhead, hbuf, hreq]
    exact hrewrite
  · exact hcur.reads.more u.kernel.wire.clientIn
  · rw [hrreq, hreq, hbuf]
    exact hle

theorem comes_of_yields {s : Slot} (hio : io.yields = true) (h : s.Sound files) : s.Comes files io := by
  cases io with
  | done => cases hio
  | close => cases hio
  | wantRead => exact h
  | wantWrite => exact h
  | idle => exact h

/-- The current request is the one that is answered next. -/
theorem Slot.Current.due {s : Slot} (h : s.Current files) : ∃ content, s.Due files content := by
  obtain ⟨rs, r, hrouted, -, hreq, hanswered⟩ := h.last
  exact ⟨files r, .request rs r hrouted hreq hanswered⟩

/-- What a call of the proxy leaves. -/
theorem leaves_comes (hl : Leaves w io u.world) (hcur : (Worker.slotOf u).Current files)
    (hreq : u.hc.req = w.hc.req) : (Worker.slotOf u).Comes files io := by
  obtain ⟨content, hdue⟩ := hcur.due
  -- How `proxy_pump` leaves the connection: closed, waiting, done, or with a text of its own.
  cases hl with
  | close => trivial
  | waits _ _ head hio h =>
      obtain ⟨hup, hphase, -, -⟩ := h.frame
      have hup : u.px.fd.isSome = true := hup
      have hphase : u.hc.phase = .read := hphase
      refine comes_of_yields hio ⟨fun hnone => ?_, fun _ => ⟨⟨w, head, h⟩, hcur⟩, fun hwrite => ?_⟩
      · have hnone : u.px.fd = none := hnone
        rw [hnone] at hup
        cases hup
      · exact absurd hphase hwrite
  -- The response was relayed in full.
  | done _ hup h =>
      obtain ⟨r, rest, hanswer, hout, hwhole, hkeep⟩ := h.answer
      have hanswer : answer u.hc.req (received u.kernel.wire.conns) = some (r, rest) := by
        rw [hreq]
        exact hanswer
      have hkeep : u.hc.keep = r.keep := hkeep
      obtain ⟨hasked, -⟩ := answer_keep hanswer
      refine ⟨⟨fun hk => ?_, fun _ => hcur.whole, fun hk => ?_, h.wrapped⟩,
        content, hdue, .relayed (contOf w) (isCont_contOf w) r rest hanswer hout hwhole hkeep⟩
      · have hk : u.hc.keep = true := hk
        show httpShouldKeepalive u.hc.req = true
        rw [← hasked, ← hkeep]
        exact hk
      · -- nothing was read from the client since the head
        have hk : u.hc.keep = true := hk
        have hneed : World.bodyNeed w.hc = 0 := by
          have hzero := bodyNeed_of_keepalive (hasked.symm.trans (hkeep.symm.trans hk))
          rw [hreq] at hzero
          exact hzero
        have hin : u.kernel.wire.clientIn = [] := h.clientIn hneed
        show Splits decodeHead (u.trail.arrived ++ u.kernel.wire.clientIn) _ _
        rw [hin, List.append_nil]
        exact hcur.reads
  -- A text that `proxy_fail` armed, with nothing of the upstream's response before it.
  | fixed _ hup h =>
      obtain ⟨cont, hcont, hout⟩ := h.out
      have hkeep : u.hc.keep = false := h.keep
      have hphase : u.hc.phase = .writeFixed := h.phase
      have hup : u.px.fd = none := hup
      have hno : (Worker.slotOf u).hc.keep ≠ true := by
        show u.hc.keep ≠ true
        rw [hkeep]
        decide
      refine ⟨fun _ hread => ?_, fun hsome => ?_, fun _ => ⟨⟨fun hk => absurd hk hno,
        fun hk => absurd hk hno, fun hk => absurd hk hno, h.wrapped⟩,
        content, hdue, .text cont hcont hphase hout ?_⟩⟩
      · have hread : u.hc.phase = .read := hread
        rw [hphase] at hread
        cases hread
      · have hsome : u.px.fd.isSome = true := hsome
        rw [hup] at hsome
        cases hsome
      · have hresp := h.fixed
        show OwnText u.hc.fixed u.hc.keep
        rw [hkeep]
        apply OwnText.closing
        simp only [List.mem_cons, List.not_mem_nil, or_false] at hresp
        rcases hresp with h | h | h
        · have h : u.hc.fixed = RESP_405 := h
          simp [h, FIXED_ANSWERS]
        · have h : u.hc.fixed = RESP_411 := h
          simp [h, FIXED_ANSWERS]
        · have h : u.hc.fixed = RESP_502 := h
          simp [h, FIXED_ANSWERS]

end Proxy

/-! ## The acts -/

section Acts

variable {site : Site} {fuel now idx : Nat} {p q : Point} {t t' : Turn} {s : Slot}
variable {files : Files}

/-- A fixed answer of `http.c` or `routes.c`, before any byte of it is sent. -/
theorem armClose_shows {resp : List UInt8} (status now : Nat) (hresp : resp ∈ FIXED_ANSWERS)
    (hout : t.kernel.wire.clientOut = []) (hwrap : t.wrapped = false) {content : Option (Nat → UInt8)}
    (hdue : (Worker.slotOf (t.armClose resp status now)).Due files content) :
    (Worker.slotOf (t.armClose resp status now)).Leads ∧
      (Worker.slotOf (t.armClose resp status now)).Responds files := by
  have hno : (Worker.slotOf (t.armClose resp status now)).hc.keep ≠ true := by
    show false ≠ true
    decide
  refine ⟨⟨fun h => absurd h hno, fun h => absurd h hno, fun h => absurd h hno, hwrap⟩, content,
    hdue, ?_⟩
  exact .text [] (.inl rfl) rfl hout (.closing hresp)

/-- The wire of a request that is dispatched is empty. -/
theorem settle_faithful (hreads : ∃ rest, (Worker.slotOf t).Reads rest) :
    (∃ rest, (Worker.slotOf t.settle).Reads rest) ∧ (Worker.slotOf t.settle).Owes := by
  obtain ⟨rest, hreads⟩ := hreads
  refine ⟨⟨rest, hreads.of_eq ?_ rfl⟩, Slot.owes_of_nil rfl⟩
  exact List.append_nil _

/-- An answer to bytes that are not a request. -/
theorem refusal_faithful {resp : List UInt8} (status now : Nat) (loop : Bool)
    (hresp : resp ∈ FIXED_ANSWERS) (hf : Faithful files p t) (hfetch : (Worker.slotOf t).Fetches files) :
    Faithful files (.writing loop) (t.settle.armClose resp status now) := by
  obtain ⟨hreads, howes⟩ := settle_faithful hf.reads
  exact ⟨hf.answers, hreads, howes, nofun,
    armClose_shows (t := t.settle) status now hresp rfl hfetch.wrapped (.refusal rfl hfetch.answered)⟩

theorem refused_faithful (now : Nat) (loop : Bool) (hf : Faithful files p t) (hup : t.px.fd = none)
    (hfetch : (Worker.slotOf t).Fetches files) : Faithful files (.writing loop) (t.refused now) := by
  unfold Turn.refused
  rw [hup]
  exact refusal_faithful 431 now loop (by decide) hf hfetch

/-- The record of a request that is routed. -/
theorem routed_current (hparsed : httpParseRequest t.hc.buf = .ok t.hc.req)
    (hwire : t.kernel.wire = .empty) (hfetch : (Worker.slotOf t).Fetches files) :
    (Worker.slotOf t.routed).Current files := by
  have hsplit : Splits decodeHead t.trail.arrived (Worker.slotOf t).heads t.hc.buf := by
    have harrived : (Worker.slotOf t).arrived = t.trail.arrived := by
      show t.trail.arrived ++ t.kernel.wire.clientIn = _
      rw [hwire]
      exact List.append_nil _
    rw [← harrived]
    exact hfetch.reads
  refine ⟨⟨_, _, rfl, rfl, rfl, hfetch.answered⟩, ?_, headerBytes_le_length hparsed⟩
  show Splits decodeHead t.trail.arrived ((t.trail.routed ++ [_]).map _) _
  rw [List.map_append]
  apply Splits.concat (p := t.hc.buf.take t.hc.req.headerBytes)
  · show Splits decodeHead t.trail.arrived (Worker.slotOf t).heads
      (t.hc.buf.take t.hc.req.headerBytes ++ t.hc.buf.drop t.hc.req.headerBytes)
    rw [List.take_append_drop]
    exact hsplit
  · exact decodeHead_take hparsed

/-- A response that the server makes itself. -/
theorem reply_shows (hparsed : httpParseRequest t.hc.buf = .ok t.hc.req)
    (h : Reply site now t.routed t') (hs : Stance p t) (hempty : t.Empty)
    (hwire : t.kernel.wire = .empty) (hwrap : t.wrapped = false)
    (hcur : (Worker.slotOf t.routed).Current files) :
    SameRecord (Worker.slotOf t.routed) (Worker.slotOf t') ∧ t'.trail = t.routed.trail ∧
      t'.px = t.px ∧ (Worker.slotOf t').Leads ∧ (Worker.slotOf t').Responds files := by
  obtain ⟨rs, r, hrouted, -, hrreq, hanswered⟩ := hcur.last
  have hgoes : Turn.Goes 0 t t.routed := routed_goes t
  rcases reply_armed (t := t.routed) hparsed h (hgoes hs.fit).1 hempty with
    ha | ⟨resp, status, hresp, rfl⟩
  -- An answer that was armed with its file or its text.
  · obtain ⟨h', rfl⟩ := h.handler
    have htraffic : traffic h'.kernel.wire = ([], [], []) := by
      rw [show traffic h'.kernel.wire = traffic t.kernel.wire from ha.same.traffic, hwire]
      rfl
    have hin : h'.kernel.wire.clientIn = [] := congrArg Prod.fst htraffic
    have hout : h'.kernel.wire.clientOut = [] := congrArg (fun x => x.2.1) htraffic
    have hconns : h'.kernel.wire.conns = [] := congrArg (fun x => x.2.2) htraffic
    have hreq : h'.hc.req = t.hc.req := ha.same.req
    have hbuf : h'.hc.buf = t.hc.buf := ha.same.buf
    have hdue : (Worker.slotOf (t.routed.withHandler h')).Due files (files r) :=
      .request rs r hrouted (hrreq.trans hreq.symm) hanswered
    -- Nothing of the record changes: what was read and routed, what the upstream was sent.
    refine ⟨⟨rfl, rfl, ?_, ?_⟩, rfl, rfl, ⟨fun hk => ?_, fun _ => ?_, fun _ => ?_, hwrap⟩,
      files r, hdue, ?_⟩
    · show h'.kernel.wire.clientIn = t.kernel.wire.clientIn
      rw [hin, hwire]
      rfl
    · show h'.kernel.wire.conns = t.kernel.wire.conns
      rw [hconns, hwire]
      rfl
    · show httpShouldKeepalive h'.hc.req = true
      rw [hreq]
      exact ha.keep hk
    · show h'.hc.req.headerBytes ≤ h'.hc.buf.length
      rw [hreq, hbuf]
      exact hcur.whole
    · show Splits decodeHead (t.trail.arrived ++ h'.kernel.wire.clientIn) _
        (h'.hc.buf.drop h'.hc.req.headerBytes)
      rw [hin, List.append_nil, hreq, hbuf]
      exact hcur.reads
    -- Nothing of the answer is sent yet.
    · cases ha.ready with
      | fixed hphase hoff hfile htext =>
          have hoff : h'.hc.fixedOff = 0 := hoff
          refine .text [] (.inl rfl) hphase ?_ (.armed htext)
          show h'.kernel.wire.clientOut = [] ++ h'.hc.fixed.take h'.hc.fixedOff
          rw [hout, hoff]
          rfl
      | file fd size hphase hoff hfile hhead hfrom =>
          have hoff : h'.hc.outHdrOff = 0 := hoff
          refine .head size hphase ?_ hhead hfrom
          show h'.kernel.wire.clientOut = h'.hc.outHdr.take h'.hc.outHdrOff
          rw [hout, hoff]
          rfl
  -- A text that closes the connection.
  · have hout : t.routed.kernel.wire.clientOut = [] := congrArg Wire.clientOut hwire
    have hmem : resp ∈ FIXED_ANSWERS := by
      simp only [List.mem_cons, Prod.mk.injEq, List.not_mem_nil, or_false] at hresp
      rcases hresp with ⟨rfl, -⟩ | ⟨rfl, -⟩ | ⟨rfl, -⟩
      · simp [FIXED_ANSWERS]
      · simp [FIXED_ANSWERS]
      · simp [FIXED_ANSWERS]
    exact ⟨⟨rfl, rfl, rfl, rfl⟩, rfl, rfl, armClose_shows (t := t.routed) status now hmem hout hwrap
      (.request rs r hrouted hrreq hanswered)⟩

/-- A slot that sends a response. -/
theorem sound_of_responds (hup : s.px.fd = none) (hs : s.Responds files) (hl : s.Leads) :
    s.Sound files := by
  refine ⟨fun _ hread => ?_, fun hsome => ?_, fun _ => ⟨hl, hs⟩⟩
  · obtain ⟨content, -, hsends⟩ := hs
    cases hsends with
    | text cont hcont hphase => cases hread.symm.trans hphase
    | head n hphase => cases hread.symm.trans hphase
    | file n body hphase => cases hread.symm.trans hphase
  · rw [hup] at hsome
    cases hsome

/-- A slot that fetches the next request. -/
theorem sound_of_fetches (hup : s.px.fd = none) (hread : s.hc.phase = .read) (hf : s.Fetches files)
    (hstuck : s.Stuck) : s.Sound files := by
  refine ⟨fun _ _ => ⟨hf, hstuck⟩, fun hsome => ?_, fun hwrite => absurd hread hwrite⟩
  rw [hup] at hsome
  cases hsome

/-- Where `http_conn_reuse` goes on, it is because the response says so. -/
theorem continues_eq (hl : (Worker.slotOf t).Leads) (hcap : Capped t.active t.hc) :
    Turn.continues t.hc = t.hc.keep := by
  have hfits := hcap.fits
  unfold Turn.continues
  cases hkeep : t.hc.keep with
  | false => rfl
  | true =>
      have hle : t.hc.req.headerBytes ≤ t.hc.used := hl.whole hkeep
      have hroom : t.hc.used - t.hc.req.headerBytes ≤ t.hc.headerCap := by omega
      simp [hle, hroom]

/-- The answer that is noted once its response went out. -/
theorem answered_adds (hl : (Worker.slotOf t).Leads) (hcap : Capped t.active t.hc) :
    ∃ a : Answer, t.answered.trail.answers = t.trail.answers ++ [a] ∧ a.req = t.hc.req ∧
      a.keep = t.hc.keep ∧ ∀ content, (Worker.slotOf t).Told content → a.Whole content :=
  ⟨_, rfl, rfl, rfl, fun _ htold => ⟨htold, continues_eq hl hcap, hl.asked⟩⟩

/-- It answers the last request, or the connection ends with it. -/
theorem answered_answers (hf : Faithful files (.applying .done) t) (hcap : Capped t.active t.hc) :
    Answered files t.trail.routed t.answered.trail.answers ∧
      (t.hc.keep = true →
        List.Forall₂ (Answers files) t.trail.routed t.answered.trail.answers) := by
  obtain ⟨hleads, content, hdue, htold⟩ :
    (Worker.slotOf t).Leads ∧ (Worker.slotOf t).Responded files := hf.shows
  obtain ⟨a, hadds, hareq, hakeep, hwhole⟩ := answered_adds hleads hcap
  rw [hadds]
  cases hdue with
  | request rs r hrouted hreq hanswered =>
      have hrouted : t.trail.routed = rs ++ [r] := hrouted
      have hlast : Answers files r a := ⟨hareq.trans hreq.symm, hwhole _ htold⟩
      have hall : List.Forall₂ (Answers files) t.trail.routed (t.trail.answers ++ [a]) := by
        rw [hrouted]
        exact List.rel_append hanswered (.cons hlast .nil)
      exact ⟨.all hall, fun _ => hall⟩
  | refusal hkeep hanswered =>
      have hkeep : t.hc.keep = false := hkeep
      refine ⟨.refused a hanswered (hwhole _ htold) (hakeep.trans hkeep), fun hyes => ?_⟩
      rw [hkeep] at hyes
      cases hyes

/-- Bytes of the client come into the buffer. -/
theorem receive_faithful {bytes : List UInt8} (hread : t.afterRead.1 = .got bytes)
    (hf : Faithful files .reading t) :
    Faithful files (.parsing true) (t.afterRead.2.received bytes now) := by
  obtain ⟨hfetch, -⟩ : (Worker.slotOf t).Fetches files ∧ (Worker.slotOf t).Stuck := hf.shows
  have hin : t.afterRead.2.kernel.wire.clientIn = t.kernel.wire.clientIn ++ bytes ∧
      t.afterRead.2.kernel.wire.conns = t.kernel.wire.conns := by
    have hread : (readOnce (t.kernel.reads .client) (t.hc.headerCap - t.hc.used)).1 = .got bytes :=
      hread
    unfold Turn.afterRead Kernel.read
    simp only [hread]
    exact ⟨rfl, rfl⟩
  have hmore : ∀ rest, (Worker.slotOf t).Reads rest →
      (Worker.slotOf (t.afterRead.2.received bytes now)).Reads (rest ++ bytes) := by
    intro rest hr
    show Splits decodeHead (t.trail.arrived ++ t.afterRead.2.kernel.wire.clientIn) _ _
    rw [hin.1, ← List.append_assoc]
    exact hr.more bytes
  refine ⟨hf.answers, ⟨_, hmore _ hfetch.reads⟩, ?_, nofun, hmore _ hfetch.reads, hfetch.wrapped, hfetch.answered⟩
  intro c hc
  have hc : c ∈ t.afterRead.2.kernel.wire.conns := hc
  rw [hin.2] at hc
  obtain ⟨r, head, rest, hlast, hhead, hr, hsent⟩ := hf.owes c hc
  refine ⟨r, head, rest ++ bytes, hlast, hhead, hmore rest hr, hsent.trans ?_⟩
  rw [List.prefix_append_right_inj, List.take_append]
  exact List.prefix_append _ _

/-- A read that brings nothing. -/
theorem afterRead_record (h : ∀ bytes, t.afterRead.1 ≠ .got bytes) :
    SameRecord (Worker.slotOf t) (Worker.slotOf t.afterRead.2) := by
  have hwire : t.afterRead.2.kernel.wire = t.kernel.wire := by
    have h : ∀ bytes, (readOnce (t.kernel.reads .client) (t.hc.headerCap - t.hc.used)).1 ≠ .got bytes :=
      h
    unfold Turn.afterRead Kernel.read
    simp only
    cases hr : (readOnce (t.kernel.reads .client) (t.hc.headerCap - t.hc.used)).1 with
    | got bytes => exact absurd hr (h bytes)
    | eof => rfl
    | interrupted => rfl
    | wouldBlock => rfl
    | error => rfl
  have hin : t.afterRead.2.kernel.wire.clientIn = t.kernel.wire.clientIn := by rw [hwire]
  have hconns : t.afterRead.2.kernel.wire.conns = t.kernel.wire.conns := by rw [hwire]
  exact ⟨rfl, rfl, hin, hconns⟩

/-- The next event of an exchange. -/
theorem pump_faithful {io : HttpIo} (hactive : t.active = true)
    (h : t.pump fuel now = some (io, t')) (hf : Faithful files .rest t) :
    Faithful files (.applying io) t' := by
  obtain ⟨⟨io', v⟩, hv, hr⟩ := Option.map_eq_some_iff.1 h
  cases hr
  have hsound : (Worker.slotOf t).Sound files := hf.shows hactive
  by_cases hup : t.px.fd = none
  · have hidle : t.pump fuel now = some (.close, { t with proxying := false }) := pump_idle now hup
    obtain ⟨rfl, hturn⟩ := Prod.mk.inj (Option.some.inj (h.symm.trans hidle))
    rw [hturn]
    exact hf.go ⟨rfl, rfl, rfl, rfl⟩ rfl nofun trivial
  · obtain ⟨⟨w, head, hon⟩, hcur⟩ := hsound.relays (Option.isSome_iff_ne_none.2 hup)
    have hlinked := World.proxyPump_linked hv
    have hbuf : v.hc.buf = t.hc.buf := World.client_get HttpConn.buf hlinked.1
    have hreq : v.hc.req = t.hc.req := World.client_get HttpConn.req hlinked.1
    obtain ⟨-, -, hwreq, hwbuf⟩ := hon.frame
    have hwreq : t.hc.req = w.hc.req := hwreq
    have hwbuf : t.hc.buf = w.hc.buf := hwbuf
    have hon : Underway w head t.world.relay := hon
    obtain ⟨hleaves, hsent⟩ := proxyPump_leaves hon hv
    have hcur' : (Worker.slotOf { t.withWorld v with proxying := v.px.fd.isSome }).Current files :=
      hcur.of_eq rfl rfl rfl hreq hbuf
    refine ⟨hf.answers, ⟨_, hcur'.reads.more _⟩, ?_, nofun, ?_⟩
    · exact leads_owes (u := { t.withWorld v with proxying := v.px.fd.isSome }) hsent hcur'
        (hreq.trans hwreq) (hbuf.trans hwbuf)
    · exact leaves_comes (u := { t.withWorld v with proxying := v.px.fd.isSome }) hleaves hcur'
        (hreq.trans hwreq)

/-- A slot that routes a request is ready for an exchange. -/
theorem asking_begins {loop : Bool} (r : Route) (hparsed : httpParseRequest t.hc.buf = .ok t.hc.req)
    (ho : Orderly (.routing loop) t) (hf : Faithful files (.routing loop) t) :
    Begins (t.asking r).world := by
  have hfetching : (Worker.slotOf t).Fetching := ho.at_
  have hfetch : (Worker.slotOf t).Fetches files := hf.shows
  exact ⟨hparsed, hfetching.up, hfetching.phase, hf.fresh loop rfl, hfetch.wrapped⟩

/-- An exchange starts. -/
theorem proxy_faithful {io : HttpIo} {r : Route} (loop : Bool)
    (hparsed : httpParseRequest t.hc.buf = .ok t.hc.req)
    (h : t.routed.proxyBegin fuel r now = some (io, t')) (ho : Orderly (.routing loop) t)
    (hf : Faithful files (.routing loop) t) : Faithful files (.begun loop io) t' := by
  obtain ⟨⟨io', v⟩, hv, hr⟩ := Option.map_eq_some_iff.1 h
  cases hr
  have hfetch : (Worker.slotOf t).Fetches files := hf.shows
  have hcur := routed_current hparsed (hf.fresh loop rfl) hfetch
  have hbegins : Begins (t.asking r).world := asking_begins r hparsed ho hf
  have hv : (t.asking r).world.proxyBegin fuel r.upstream r.upstreamLen now = some (io', v) := hv
  have hbegun := World.proxyBegin_linked hv
  have hbuf : v.hc.buf = t.hc.buf := World.client_get HttpConn.buf hbegun.1
  have hreq : v.hc.req = t.hc.req := World.client_get HttpConn.req hbegun.1
  obtain ⟨hleaves, hsent⟩ := proxyBegin_leaves hbegins hv
  have hcur' : (Worker.slotOf { (t.asking r).withWorld v with
      proxying := v.px.fd.isSome }).Current files := hcur.of_eq rfl rfl rfl hreq hbuf
  refine ⟨.pending _ hfetch.answered, ⟨_, hcur'.reads.more _⟩, ?_, nofun, ?_⟩
  · exact leads_owes (u := { (t.asking r).withWorld v with proxying := v.px.fd.isSome }) hsent hcur'
      hreq hbuf
  · exact leaves_comes (u := { (t.asking r).withWorld v with proxying := v.px.fd.isSome }) hleaves
      hcur' hreq

/-- The socket of the client takes some of a response. -/
theorem write_faithful (loop : Bool) (hs : Stance (.writing loop) t) (ho : Orderly (.writing loop) t)
    (hfiles : Delivering files (.writing loop) t) (hf : Faithful files (.writing loop) t) :
    Faithful files (.after loop (t.onWrite now).1) (t.onWrite now).2 := by
  obtain ⟨hleads, content, hdue, hsends⟩ :
    (Worker.slotOf t).Leads ∧ (Worker.slotOf t).Responds files := hf.shows
  obtain ⟨htrail, hin, hconns⟩ := onWrite_sent now t
  have hrec : SameRecord (Worker.slotOf t) (Worker.slotOf (t.onWrite now).2) :=
    ⟨congrArg Trail.arrived htrail, congrArg Trail.routed htrail, hin, hconns⟩
  obtain ⟨hbuf, -, hreq⟩ := onWrite_kept now t
  have hkeep : (t.onWrite now).2.hc.keep = t.hc.keep := onWrite_get HttpConn.keep now t
  have hphase := t.toHandler.httpConnOnWrite_phase now (hs.ready loop rfl)
  have hne : (t.onWrite now).1 ≠ .wantRead := hphase.2
  have hleads' : (Worker.slotOf (t.onWrite now).2).Leads := by
    refine ⟨fun hk => ?_, fun hk => ?_, fun hk => ?_, hleads.wrapped⟩
    · have hk : t.hc.keep = true := hkeep.symm.trans hk
      show httpShouldKeepalive (t.onWrite now).2.hc.req = true
      rw [hreq]
      exact hleads.asked hk
    · have hk : t.hc.keep = true := hkeep.symm.trans hk
      show (t.onWrite now).2.hc.req.headerBytes ≤ (t.onWrite now).2.hc.buf.length
      rw [hreq, hbuf]
      exact hleads.whole hk
    · have hk : t.hc.keep = true := hkeep.symm.trans hk
      show (Worker.slotOf (t.onWrite now).2).Reads
        ((t.onWrite now).2.hc.buf.drop (t.onWrite now).2.hc.req.headerBytes)
      rw [hreq, hbuf]
      exact hrec.reads (hleads.reads hk)
  have hsupplied : Supplied content t.toHandler := by
    cases hdue with
    | request rs r hrouted hreq hanswered =>
        have hrouted : t.trail.routed = rs ++ [r] := hrouted
        refine hfiles ⟨loop, rfl⟩ r ?_
        rw [hrouted, List.getLast?_concat]
    | refusal =>
        rintro _ ⟨⟩
  have htold := onWrite_told now hsends hsupplied
  have hdue' : (Worker.slotOf (t.onWrite now).2).Due files content :=
    hdue.of_eq (congrArg Trail.routed htrail) (congrArg Trail.answers htrail) hreq hkeep
  have hup : (t.onWrite now).2.px.fd = none := Slot.Answering.up ho.at_
  have hsound : (Worker.slotOf (t.onWrite now).2).Sends content →
      (Worker.slotOf (t.onWrite now).2).Sound files :=
    fun h => sound_of_responds hup ⟨content, hdue', h⟩ hleads'
  rw [after_of_ne hne]
  refine hf.go hrec (congrArg Trail.answers htrail) nofun ?_
  show (Worker.slotOf (t.onWrite now).2).Comes files (t.onWrite now).1
  cases hio : (t.onWrite now).1 with
  | done =>
      rw [hio] at htold
      exact ⟨hleads', content, hdue', htold⟩
  | close => trivial
  | wantRead => exact absurd hio hne
  | wantWrite =>
      rw [hio] at htold
      exact hsound htold
  | idle =>
      rw [hio] at htold
      exact hsound htold

/-- The connection is ready for its next request. -/
theorem next_faithful (hcont : Turn.continues t.hc = true) (hcap : Capped t.active t.hc)
    (hf : Faithful files (.applying .done) t) :
    Faithful files (.parsing false) (t.answered.nextRequest now) := by
  obtain ⟨hleads, -⟩ : (Worker.slotOf t).Leads ∧ (Worker.slotOf t).Responded files := hf.shows
  have hkeep : t.hc.keep = true := (continues_eq hleads hcap).symm.trans hcont
  have hwire : traffic (t.answered.nextRequest now).kernel.wire = traffic t.kernel.wire :=
    httpConnCleanup_traffic t.answered.toHandler
  have hrec : SameRecord (Worker.slotOf t) (Worker.slotOf (t.answered.nextRequest now)) :=
    ⟨rfl, rfl, congrArg Prod.fst hwire, congrArg (fun x => x.2.2) hwire⟩
  have hreads := hrec.reads (hleads.reads hkeep)
  obtain ⟨hanswers, hall⟩ := answered_answers hf hcap
  exact ⟨hanswers, ⟨_, hreads⟩, hrec.owes hf.owes, nofun, hreads, hleads.wrapped, hall hkeep⟩

/-- Where a result of `try_parse_buffer` leads. -/
theorem shows_after (loop : Bool) {io : HttpIo}
    (hread : loop = true → io = .wantRead → s.Fetches files ∧ s.Stuck) (h : s.Comes files io) :
    s.Shows files (.after loop io) := by
  unfold Point.after
  split
  · rename_i hloop
    exact hread hloop.1 hloop.2
  · exact h

theorem after_ne_routing (loop : Bool) (io : HttpIo) (l : Bool) : Point.after loop io ≠ .routing l := by
  unfold Point.after
  split
  · rintro ⟨⟩
  · rintro ⟨⟩

/-- The buffer holds no complete head, and more of it is waited for. -/
theorem stuck_faithful (loop : Bool) (ho : Orderly (.parsing loop) t)
    (hf : Faithful files (.parsing loop) t) (hstuck : (Worker.slotOf t).Stuck) :
    Faithful files (.after loop .wantRead) t := by
  have hfetching : (Worker.slotOf t).Fetching := ho.at_
  have hfetch : (Worker.slotOf t).Fetches files := hf.shows
  refine hf.go ⟨rfl, rfl, rfl, rfl⟩ rfl (after_ne_routing loop _) ?_
  exact shows_after loop (fun _ _ => ⟨hfetch, hstuck⟩)
    (sound_of_fetches hfetching.up hfetching.phase hfetch hstuck)

/-- The step lemma. -/
theorem Act.faithful (h : Act site fuel now idx (p, t) (q, t')) (hs : Stance p t)
    (hok : Minds files p t) (ho : Orderly p t) (hh : Headed p t) (hf : Faithful files p t) :
    Faithful files q t' := by
  have hcap := hh.capped
  have hat := ho.at_
  have hshows := hf.shows
  have hsame : SameRecord (Worker.slotOf t) (Worker.slotOf t) := ⟨rfl, rfl, rfl, rfl⟩
  -- What a closed slot shows is empty.
  have hoff : ∀ u : Turn, u.active = false → (Worker.slotOf u).Shows files .rest := by
    intro u hu hon
    have hon : u.active = true := hon
    rw [hu] at hon
    cases hon
  have hclosed : ∀ u : Turn, (Worker.slotOf (u.slotClose idx)).Shows files .rest := by
    intro u
    cases hon : u.active with
    | false => exact hoff _ (by rw [Turn.slotClose_idle idx hon]; exact hon)
    | true => exact hoff _ (slotClose_inactive idx hon)
  cases h with
  -- the event loop
  | hangUp | close =>
      exact hf.go (slotClose_record idx t) (congrArg Trail.answers (slotClose_trail idx t)) nofun
        (hclosed t)
  | gone _ io hio hactive => exact hf.go hsame rfl nofun (hoff t hactive)
  | arm _ io hio hactive =>
      refine hf.go (armEvents_record idx io t) (congrArg Trail.answers (armEvents_trail idx io t))
        nofun ?_
      have hsound : (Worker.slotOf t).Sound files := by
        cases io with
        | done => exact absurd rfl hio.1
        | close => exact absurd rfl hio.2
        | wantRead => exact hshows
        | wantWrite => exact hshows
        | idle => exact hshows
      unfold Turn.armEvents
      split
      · exact fun _ => hsound
      split
      · extract_lets r
        split
        · intro _
          exact hsound.of_same ⟨rfl, rfl, rfl, rfl, rfl⟩
        · exact hclosed { t with kernel := r.2 }
      · exact hclosed t
  | pump _ _ io hactive h => exact pump_faithful hactive h hf
  | send _ hactive hphase => exact hf.go hsame rfl nofun ((hshows hactive).answers hphase)
  | late => exact hf.go hsame rfl nofun trivial
  | resume _ hactive hidle hphase =>
      have hup : t.px.fd = none := by
        rcases hat hactive with hfetch | hr | ha
        · exact hfetch.up
        · exact absurd (hr.proxying.symm.trans hidle) nofun
        · exact ha.up
      exact hf.go hsame rfl nofun ((hshows hactive).fetches hup hphase).1
  | start _ hactive hidle hphase =>
      have hup : t.px.fd = none := by
        rcases hat hactive with hfetch | hr | ha
        · exact hfetch.up
        · exact absurd (hr.proxying.symm.trans hidle) nofun
        · exact ha.up
      exact hf.go hsame rfl nofun ((hshows hactive).fetches hup hphase)
  -- the loop of `http_conn_on_read`
  | full => exact refused_faithful now false hf hat.up hshows.1
  | again _ hroom hread =>
      have hrec := afterRead_record (t := t) fun bytes he => by cases hread.symm.trans he
      refine hf.go hrec rfl nofun ⟨⟨?_, hshows.1.wrapped, hshows.1.answered⟩, hshows.2⟩
      exact hrec.reads hshows.1.reads
  | wait _ hroom hread =>
      have hrec := afterRead_record (t := t) fun bytes he => by cases hread.symm.trans he
      refine hf.go hrec rfl nofun (sound_of_fetches (s := Worker.slotOf t.afterRead.2) hat.up hat.phase
        ⟨?_, hshows.1.wrapped, hshows.1.answered⟩ hshows.2)
      exact hrec.reads hshows.1.reads
  | ended _ hroom hread =>
      refine hf.go (afterRead_record (t := t) fun bytes he => ?_) rfl nofun trivial
      rcases hread with hread | hread
      · cases hread.symm.trans he
      · cases hread.symm.trans he
  | receive _ bytes hroom hread => exact receive_faithful hread hf
  -- `try_parse_buffer` and `dispatch_parsed`
  | empty _ loop hused =>
      exact stuck_faithful loop ho hf (stuck_of_empty (List.eq_nil_of_length_eq_zero hused))
  | partialHead _ loop hroom hparse => exact stuck_faithful loop ho hf (stuck_of_incomplete hparse)
  | overlong _ loop => exact refused_faithful now loop hf hat.up hshows
  | bad _ loop => exact refusal_faithful 400 now loop (by decide) hf hshows
  | unsupported _ loop => exact refusal_faithful 501 now loop (by decide) hf hshows
  | parse _ req loop hused hparse =>
      obtain ⟨hreads, howes⟩ := settle_faithful hf.reads
      have hfetch : (Worker.slotOf (t.parsed req)).Fetches files :=
        ⟨hshows.reads.of_eq (List.append_nil _) rfl, hshows.wrapped, hshows.answered⟩
      exact ⟨hf.answers, hreads, howes, fun _ _ => rfl, hfetch⟩
  -- `route_begin`
  | unknown _ loop hparsed =>
      have hout : t.kernel.wire.clientOut = [] :=
        congrArg (fun w : Wire => w.clientOut) (hf.fresh loop rfl)
      exact hf.go ⟨rfl, rfl, rfl, rfl⟩ rfl nofun
        (armClose_shows 501 now (by decide) hout hshows.wrapped (.refusal rfl hshows.answered))
  | reply _ _ loop hparsed hmethod h =>
      have hwire := hf.fresh loop rfl
      have hcur := routed_current hparsed hwire hshows
      obtain ⟨hrec, htrail, hpx, hleads, hresponds⟩ := reply_shows hparsed h hs (hs.empty rfl) hwire
        hshows.wrapped hcur
      have hconns : t'.kernel.wire.conns = [] := by
        have hnil : t.kernel.wire.conns = [] := congrArg (fun w : Wire => w.conns) hwire
        exact hrec.conns.trans hnil
      refine ⟨?_, ⟨_, hrec.reads (hcur.reads.more _)⟩, Slot.owes_of_nil hconns, nofun, ?_⟩
      · rw [htrail]
        exact .pending _ hshows.answered
      · exact sound_of_responds ((congrArg ProxyConn.fd hpx).trans hat.up) hresponds hleads
  | proxy _ _ io r loop hparsed hmethod hroute htype h => exact proxy_faithful loop hparsed h ho hf
  | deliver _ loop hphase =>
      have hsound : (Worker.slotOf t).Sound files := hshows
      exact hf.go hsame rfl nofun (hsound.answers hphase)
  | return_ _ loop io h =>
      refine hf.go hsame rfl (after_ne_routing loop io) (shows_after loop (fun hloop hio => ?_) hshows)
      exact absurd (by rw [hloop, hio]) hok.1
  | write _ loop => exact write_faithful loop hs ho hok.2 hf
  -- `apply_io`
  | finish =>
      exact ⟨(answered_answers hf hcap).1, hf.reads, hf.owes, nofun, trivial⟩
  | next _ hcont => exact next_faithful hcont hcap hf

end Acts

end TinyServer.Serve
