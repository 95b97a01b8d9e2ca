import TinyServer.Serve.Exchanges
import TinyServer.Serve.OpenFiles

/-!
# What clients and upstreams see of a run

The invariants of `Serve/Exchanges.lean` hold in every run in which no exchange comes back to
the loop that started it. A client that sends one request head after the other gets them
dispatched in the order sent, none lost, none twice and none made up (`reachable_streams`).
The dispatched requests are answered one after the other, each with a whole response
(`reachable_answers`), and an upstream gets the bytes of the request that was dispatched for it
and no others (`reachable_owes`).
-/

set_option autoImplicit false

namespace TinyServer.Serve

open TinyServer.Http TinyServer.Net TinyServer.Proxy TinyServer.Static TinyServer.Routing
open TinyServer.Lib

/-! ## The invariant -/

/-- What a handler keeps to. -/
structure Straight (files : Files) (p : Point) (t : Turn) : Prop where
  orderly : Orderly p t
  headed : Headed p t
  faithful : Faithful files p t

namespace Slot

/-- What a slot keeps to between its handlers. -/
structure Straight (files : Files) (s : Slot) : Prop where
  calm : s.Calm
  waits : s.active = true → s.Waiting
  capped : Capped s.active s.hc
  answers : Answered files s.trail.routed s.trail.answers
  reads : ∃ rest, s.Reads rest
  owes : s.Owes
  sound : s.active = true → s.Sound files

/-- Nothing has come from the client yet. -/
structure New (s : Slot) : Prop where
  trail : s.trail = .empty
  wire : traffic s.wire = ([], [], [])
  upstream : s.px.fd = none
  phase : s.hc.phase = .read
  buf : s.hc.buf = []
  wrapped : s.wrapped = false

/-- The slot waits for the next request. -/
structure Idles (s : Slot) : Prop where
  active : s.active = true
  upstream : s.px.fd = none
  phase : s.hc.phase = .read

end Slot

section New

variable {files : Files} {s : Slot}

theorem Slot.New.arrived (h : s.New) : s.arrived = [] := by
  have hin : s.wire.clientIn = [] := congrArg Prod.fst h.wire
  unfold Slot.arrived
  rw [hin, h.trail]
  rfl

theorem Slot.New.reads (h : s.New) : s.Reads s.hc.buf := by
  unfold Slot.Reads Slot.heads
  rw [h.arrived, h.trail, h.buf]
  exact .nil []

theorem Slot.New.owes (h : s.New) : s.Owes := by
  apply Slot.owes_of_nil
  exact congrArg (fun x => x.2.2) h.wire

theorem Slot.New.all (h : s.New) : List.Forall₂ (Answers files) s.trail.routed s.trail.answers := by
  rw [h.trail]
  exact .nil

theorem Slot.New.sound (h : s.New) : s.Sound files := by
  refine ⟨fun _ _ => ⟨⟨h.reads, h.wrapped, h.all⟩, stuck_of_empty h.buf⟩, fun hup => ?_,
    fun hphase => ?_⟩
  · rw [h.upstream] at hup
    cases hup
  · exact absurd h.phase hphase

end New

/-! ## The rule -/

section Rule

variable {w : Worker} {s : Slot} {fd now : Nat} {free : List Nat} {sched : Schedule} {disk : Disk}

/-- A handler finds its slot as the last one left it. -/
theorem load_sameView (w : Worker) (s : Slot) (sched : Schedule) (disk : Disk) :
    SameView s (Worker.slotOf (w.load s sched disk)) := ⟨rfl, rfl, rfl, rfl, rfl⟩

theorem admitted_new : (Worker.slotOf (w.admitted s fd now free sched disk)).New :=
  ⟨rfl, rfl, rfl, rfl, rfl, rfl⟩

theorem rejected_new {idx : Nat} (hfree : w.freeStack = idx :: free) :
    (Worker.slotOf (w.rejected idx s fd now free sched disk)).New := by
  have hr := Worker.rejected_spec fd now sched disk hfree s
  obtain ⟨hphase, hbuf, -⟩ := hr.conn
  refine ⟨hr.trail, ?_, hr.upstream, hphase, hbuf, ?_⟩
  · unfold Worker.rejected
    extract_lets t₁ t₂ t₃
    exact httpConnCleanup_traffic t₂.toHandler
  · rfl

/-- A slot that a connection enters is straight, whatever it was before. -/
theorem admitted_straight {files : Files} :
    Straight files .rest (w.admitted s fd now free sched disk) := by
  have hnew : (Worker.slotOf (w.admitted s fd now free sched disk)).New := admitted_new
  refine ⟨admitted_orderly w s fd now free sched disk, admitted_headed w s fd now free sched disk,
    .all hnew.all, ⟨_, hnew.reads⟩, hnew.owes, ?_, fun _ => hnew.sound⟩
  rintro _ ⟨⟩

theorem rejected_straight {files : Files} {idx : Nat} (hfree : w.freeStack = idx :: free) :
    Slot.Straight files (Worker.slotOf (w.rejected idx s fd now free sched disk)) := by
  have hnew : (Worker.slotOf (w.rejected idx s fd now free sched disk)).New := rejected_new hfree
  have horderly := rejected_orderly s fd now sched disk hfree
  exact ⟨horderly.calm, horderly.at_, (rejected_headed s fd now sched disk hfree).capped,
    .all hnew.all, ⟨_, hnew.reads⟩, hnew.owes, fun _ => hnew.sound⟩

/-- Straightness is a rule for one slot. -/
theorem straightRule (site : Site) (fuel : Nat) (files : Files) :
    SlotRule site fuel (Minds files) (Straight files) (Slot.Straight files) where
  unused := by
    refine ⟨(orderlyRule site fuel).unused.1, (orderlyRule site fuel).unused.2,
      (headedRule site fuel).unused, .all .nil, ⟨[], .nil []⟩, ?_, ?_⟩
    · exact Slot.owes_of_nil rfl
    · rintro ⟨⟩
  load := by
    intro w s sched disk hactive hs
    have hview := load_sameView w s sched disk
    obtain ⟨rest, hreads⟩ := hs.reads
    refine ⟨(orderlyRule site fuel).load w s sched disk hactive ⟨hs.calm, hs.waits⟩,
      (headedRule site fuel).load w s sched disk hactive hs.capped, hs.answers,
      ⟨rest, hview.record.reads hreads⟩, hview.record.owes hs.owes, ?_, fun _ => ?_⟩
    · rintro _ ⟨⟩
    · exact (hs.sound hactive).of_same hview
  enter := fun _ _ _ _ _ _ _ _ => admitted_straight
  act := by
    intro now idx p t q t' hs hok hact h
    exact ⟨hact.orderly hs hok.1 h.orderly, hact.headed hs h.headed,
      hact.faithful hs hok h.orderly h.headed h.faithful⟩
  store := by
    intro t h
    exact ⟨h.orderly.calm, h.orderly.at_, h.headed.capped, h.faithful.answers, h.faithful.reads,
      h.faithful.owes, h.faithful.shows⟩
  reject := fun _ _ _ _ _ _ _ _ hfree _ => rejected_straight hfree

end Rule

/-! ## Sites without a proxy -/

section NoProxy

variable {site : Site} {fuel now idx : Nat} {p q : Point} {t t' : Turn}

theorem settled_after (loop : Bool) (io : HttpIo) : Settled (.after loop io) t := by
  unfold Settled Point.after
  split
  · rintro ⟨⟩
  · rintro ⟨⟩

/-- Only an exchange that starts can wait for its client in the loop that started it. -/
theorem Act.settled_of (h : Act site fuel now idx (p, t) (q, t'))
    (hproxy : ∀ io r, p = .routing true → httpParseRequest t.hc.buf = .ok t.hc.req →
      t.route site = some r → r.type = .proxy → t.routed.proxyBegin fuel r now = some (io, t') →
        io ≠ .wantRead) : Settled q t' := by
  cases h with
  | proxy _ _ io r loop hparsed hmethod hroute htype hbegin =>
      intro hq
      obtain ⟨rfl, hio⟩ := Point.begun.inj hq
      exact hproxy io r rfl hparsed hroute htype hbegin hio
  | empty _ loop => exact settled_after loop .wantRead
  | partialHead _ loop => exact settled_after loop .wantRead
  | return_ _ loop io h => exact settled_after loop io
  | write _ loop => exact settled_after loop _
  | _ => rintro ⟨⟩

theorem Act.settled (hsite : ∀ r ∈ site.routes, r.type ≠ .proxy)
    (h : Act site fuel now idx (p, t) (q, t')) : Settled q t' := by
  refine h.settled_of fun io r _ _ hroute htype _ => ?_
  -- no route of the site is for a proxy
  exact absurd htype (hsite r (routeMatch_mem hroute).1)

/-- Where no route leads to an upstream, no exchange comes back to the loop that started it. -/
theorem through_settled (hsite : ∀ r ∈ site.routes, r.type ≠ .proxy) (fuel n : Nat)
    (as : List Action) :
    AllSteps (Worker.step site fuel) (Worker.Through site fuel Settled) (Worker.start n) as := by
  have hrule : SlotRule site fuel anyState Settled fun _ => True := by
    refine ⟨trivial, fun _ _ _ _ _ _ => ?_, fun _ _ _ _ _ _ _ _ => ?_,
      fun _ _ _ _ _ _ _ _ hact _ => hact.settled hsite, fun _ _ => trivial,
      fun _ _ _ _ _ _ _ _ _ _ => trivial⟩
    · rintro ⟨⟩
    · rintro ⟨⟩
  exact hrule.through (fun _ _ h => h) n as

end NoProxy

/-! ## Runs -/

section Runs

variable {site : Site} {fuel n : Nat} {as : List Action}

/-- No file is known. -/
def noFiles : Files := fun _ => none

/-- Where nothing is known of the files, there is nothing to ask of `sendfile`. -/
theorem minds_noFiles {p : Point} {t : Turn} (h : Settled p t) : Minds noFiles p t := by
  refine ⟨h, ?_⟩
  rintro - r - bytes ⟨⟩

/-- Without proxy routes, every run that settles its reads is straight. -/
theorem reachable_straight
    (hall : AllSteps (Worker.step site fuel) (Worker.Through site fuel Settled) (Worker.start n) as) :
    ∀ w ∈ runStates (Worker.step site fuel) (Worker.start n) as, ∀ s ∈ w.slots,
      s.Straight noFiles := by
  have hminds : AllSteps (Worker.step site fuel) (Worker.Through site fuel (Minds noFiles))
      (Worker.start n) as := by
    refine AllSteps.mono_invariant (I := fun _ => True) (fun w a w' _ h _ => ⟨?_, trivial⟩) trivial hall
    exact h.mono fun _ _ => minds_noFiles
  exact (straightRule site fuel noFiles).slots hminds

variable {files : Files} {s : Slot} {ms : List (List UInt8 × HttpRequest)}

theorem Slot.Straight.fetches (h : s.Straight files) (hidle : s.Idles) :
    s.Fetches files ∧ s.Stuck :=
  (h.sound hidle.active).fetches hidle.upstream hidle.phase

theorem Slot.Straight.idle (h : s.Straight files) (hidle : s.Idles) :
    s.Reads s.hc.buf ∧ s.Stuck := by
  obtain ⟨hfetch, hstuck⟩ := h.fetches hidle
  exact ⟨hfetch.reads, hstuck⟩

/-- A client that sends heads has the first of them dispatched. -/
theorem Slot.Straight.heads_prefix (h : s.Straight files) (hms : ∀ m ∈ ms, decodeHead m.1 = some m.2)
    (hsent : s.arrived <+: (ms.map Prod.fst).flatten) : s.heads <+: ms := by
  obtain ⟨rest, hreads⟩ := h.reads
  exact Splits.of_stream prefixFree_decodeHead hms hreads hsent

/-- A slot that waits has dispatched all heads that came completely. -/
theorem Slot.Straight.heads_eq (h : s.Straight files) (hidle : s.Idles)
    (hms : ∀ m ∈ ms, decodeHead m.1 = some m.2)
    (hsent : s.arrived = (ms.map Prod.fst).flatten) : s.heads = ms := by
  obtain ⟨hreads, hstuck⟩ := h.idle hidle
  unfold Slot.Reads at hreads
  rw [hsent] at hreads
  exact hreads.all_of_stuck prefixFree_decodeHead hms hstuck

/-- The bytes that a client sent are the heads of the requests dispatched for it and what
follows them. A client that sends nothing but heads has them dispatched in the order sent,
each once; a slot that waits for the next request has dispatched all that came completely. -/
theorem reachable_streams (site : Site) (fuel n : Nat) (as : List Action)
    (hall : AllSteps (Worker.step site fuel) (Worker.Through site fuel Settled) (Worker.start n) as) :
    ∀ w ∈ runStates (Worker.step site fuel) (Worker.start n) as, ∀ s ∈ w.slots,
      (∃ rest, s.Reads rest) ∧ (s.Idles → s.Reads s.hc.buf ∧ s.Stuck) ∧
      ∀ ms : List (List UInt8 × HttpRequest), (∀ m ∈ ms, decodeHead m.1 = some m.2) →
        (s.arrived <+: (ms.map Prod.fst).flatten → s.heads <+: ms) ∧
        (s.arrived = (ms.map Prod.fst).flatten → s.Idles → s.heads = ms) := by
  intro w hw s hs
  have h := reachable_straight hall w hw s hs
  refine ⟨h.reads, h.idle, fun ms hms => ⟨?_, ?_⟩⟩
  · intro hsent
    exact h.heads_prefix hms hsent
  · intro hsent hidle
    exact h.heads_eq hidle hms hsent

/-- The heads that a list of requests is rendered as. -/
theorem exists_heads (rs : List AbstractRequest)
    (hshort : ∀ r ∈ rs, r.render.length ≤ HTTP_PARSE_MAX_LEN) :
    ∃ ms : List (List UInt8 × HttpRequest), ms.map Prod.fst = rs.map AbstractRequest.render ∧
      (∀ m ∈ ms, decodeHead m.1 = some m.2 ∧ ∃ r ∈ rs, m.1 = r.render ∧ r.Denotes m.1 m.2) ∧
      List.Forall₂ (fun r m => m.1 = r.render ∧ r.Denotes m.1 m.2) rs ms := by
  induction rs with
  | nil =>
      refine ⟨[], rfl, ?_, .nil⟩
      intro m hm
      cases hm
  | cons r rs ih =>
      obtain ⟨ms, hwords, hdecode, hall⟩ := ih fun x hx => hshort x (List.mem_cons_of_mem r hx)
      obtain ⟨req, hreq, hden⟩ := r.decodeHead_render (hshort r List.mem_cons_self)
      refine ⟨(r.render, req) :: ms, ?_, ?_, .cons ⟨rfl, hden⟩ hall⟩
      · rw [List.map_cons, List.map_cons, hwords]
      · intro m hm
        rcases List.mem_cons.1 hm with rfl | hm
        · exact ⟨hreq, r, List.mem_cons_self, rfl, hden⟩
        · obtain ⟨hdec, x, hx, hfrom⟩ := hdecode m hm
          exact ⟨hdec, x, List.mem_cons_of_mem r hx, hfrom⟩

/-- The requests that were dispatched are the first of those that the client sent, each with
a record that denotes it; they are all of them once the slot waits for the next. -/
theorem reachable_requests (site : Site) (fuel n : Nat) (as : List Action)
    (hall : AllSteps (Worker.step site fuel) (Worker.Through site fuel Settled) (Worker.start n) as)
    (rs : List AbstractRequest) (hshort : ∀ r ∈ rs, r.render.length ≤ HTTP_PARSE_MAX_LEN) :
    ∀ w ∈ runStates (Worker.step site fuel) (Worker.start n) as, ∀ s ∈ w.slots,
      s.arrived <+: (rs.map AbstractRequest.render).flatten →
        List.Forall₂ (fun r m => m.1 = r.render ∧ r.Denotes m.1 m.2) (rs.take s.heads.length) s.heads ∧
        (s.arrived = (rs.map AbstractRequest.render).flatten → s.Idles →
          s.heads.length = rs.length) := by
  intro w hw s hs hsent
  obtain ⟨ms, hwords, hheads, hden⟩ := exists_heads rs hshort
  have hdecode : ∀ m ∈ ms, decodeHead m.1 = some m.2 := fun m hm => (hheads m hm).1
  have h := reachable_straight hall w hw s hs
  rw [← hwords] at hsent
  obtain ⟨ls, hls⟩ := h.heads_prefix hdecode hsent
  constructor
  · have htake := List.forall₂_take s.heads.length hden
    rwa [← hls, List.take_left] at htake
  · intro harrived hidle
    rw [← hwords] at harrived
    rw [h.heads_eq hidle hdecode harrived, hden.length_eq]

/-- The dispatched requests of a connection are answered one after the other, each once and with
a whole response, and the connection goes on after it if and only if the response says so. The
last request may still wait for its answer; a slot that waits for the next request has answered
all. Bytes that are not a request get an answer of their own, with which the connection ends. -/
theorem reachable_answers (site : Site) (fuel n : Nat) (files : Files) (as : List Action)
    (hall : AllSteps (Worker.step site fuel) (Worker.Through site fuel (Minds files))
      (Worker.start n) as) :
    ∀ w ∈ runStates (Worker.step site fuel) (Worker.start n) as, ∀ s ∈ w.slots,
      Answered files s.trail.routed s.trail.answers ∧
        (s.Idles → List.Forall₂ (Answers files) s.trail.routed s.trail.answers) := by
  intro w hw s hs
  have h := (straightRule site fuel files).slots hall w hw s hs
  exact ⟨h.answers, fun hidle => (h.fetches hidle).1.answered⟩

/-- Each upstream connection was sent the head of the request that was dispatched for it, as
`rewrite_request` makes it, and then the bytes that follow this head in the stream of the
client, no more of them than the request declares. -/
theorem reachable_owes (site : Site) (fuel n : Nat) (as : List Action)
    (hall : AllSteps (Worker.step site fuel) (Worker.Through site fuel Settled) (Worker.start n) as) :
    ∀ w ∈ runStates (Worker.step site fuel) (Worker.start n) as, ∀ s ∈ w.slots, s.Owes := by
  intro w hw s hs
  exact (reachable_straight hall w hw s hs).owes

end Runs

/-! ## Runs that meet the conditions -/

/-- A client sends two requests at once, and takes a file twice. -/
def pipelinedSched : Schedule := { Schedule.quiet with
  clientReads := [.data (getRequest.render ++ getRequest.render)]
  clientSends := [.sent 999, .sent 999] }

/-- The file is opened once, and sent twice. -/
def pipelinedDisk : Disk := { Disk.quiet with
  opens := [.opened 50]
  fstats := [some (changedFile 0)]
  sendfiles := [.data [1, 2, 3, 4, 5], .data [1, 2, 3, 4, 5]] }

/-- The connection of that client. -/
def pipelinedAccept : Action := .accept (some 5) 0 0 pipelinedSched pipelinedDisk

/-- Its whole run: one step of the worker serves both. -/
def pipelinedRun : List Action := [pipelinedAccept]

theorem fileSite_static : ∀ r ∈ fileSite.routes, r.type ≠ .proxy := by decide

/-- At the end the slot waits for a third. -/
theorem pipelinedRun_idles {as : List Action} (has : as = pipelinedRun) :
    ∃ w ∈ runStates (Worker.step fileSite 20) (Worker.start 1) as, ∃ s ∈ w.slots,
      s.arrived = getRequest.render ++ getRequest.render ∧ s.Idles := by
  obtain ⟨w, hw, s, hs, harrived, hactive, hup, hphase⟩ := exists_of_run
    (p := fun w : Worker => ∃ s ∈ w.slots, s.arrived = getRequest.render ++ getRequest.render ∧
      s.active = true ∧ s.px.fd = none ∧ s.hc.phase = .read)
    (show (runTo (Worker.step fileSite 20) (Worker.start 1) as).any _ = true by
      rw [has]
      decide +kernel)
  exact ⟨w, hw, s, hs, harrived, hactive, hup, hphase⟩

/-- Both heads are in the stream, and nothing else is. -/
theorem reachable_streams_two : ∃ as, as = pipelinedRun ∧
    ∃ w ∈ runStates (Worker.step fileSite 20) (Worker.start 1) as, ∃ s ∈ w.slots,
      s.arrived = getRequest.render ++ getRequest.render ∧ s.Reads s.hc.buf ∧ s.Stuck := by
  obtain ⟨as, has⟩ : ∃ as, as = pipelinedRun := ⟨_, rfl⟩
  obtain ⟨w, hw, s, hs, harrived, hidles⟩ := pipelinedRun_idles has
  obtain ⟨-, hidle, -⟩ := reachable_streams fileSite 20 1 as
    (through_settled fileSite_static 20 1 as) w hw s hs
  exact ⟨as, has, w, hw, s, hs, harrived, hidle hidles⟩

/-- Both requests are dispatched. -/
theorem reachable_requests_two : ∃ as, as = pipelinedRun ∧
    ∃ w ∈ runStates (Worker.step fileSite 20) (Worker.start 1) as, ∃ s ∈ w.slots,
      List.Forall₂ (fun r m => m.1 = r.render ∧ r.Denotes m.1 m.2) [getRequest, getRequest]
        s.heads := by
  obtain ⟨as, has⟩ : ∃ as, as = pipelinedRun := ⟨_, rfl⟩
  obtain ⟨w, hw, s, hs, harrived, hidles⟩ := pipelinedRun_idles has
  have hflat : s.arrived = ([getRequest, getRequest].map AbstractRequest.render).flatten := by
    rw [harrived]
    simp
  have hshort : ∀ r ∈ [getRequest, getRequest], r.render.length ≤ HTTP_PARSE_MAX_LEN := by decide
  obtain ⟨hden, hcount⟩ := reachable_requests fileSite 20 1 as
    (through_settled fileSite_static 20 1 as) [getRequest, getRequest] hshort w hw s hs
    (by rw [hflat])
  refine ⟨as, has, w, hw, s, hs, ?_⟩
  rwa [hcount hflat hidles] at hden

/-- The file, as long as it is not changed. -/
def fiveBytes : Files := fun _ => some fun i => UInt8.ofNat (i + 1)

/-- A request for the file, and the state after its answer. -/
def fileRequest : HttpRequest := (httpParseRequest getRequest.render).toOption.getD .zero

/-- The handler with the file armed. -/
def fileReply (t : Turn) : Turn :=
  (t.parsed fileRequest).routed.withHandler
    ((t.parsed fileRequest).routed.toHandler.staticBegin fileSite.allowDotfiles fileSite.docroot 0)

/-- The handler after the file went out. -/
def fileSent (t : Turn) : Turn := ((fileReply t).onWrite 0).2

/-- What is asked of a state in which such a request is complete, for the file to be sent at
once. -/
structure FileAsked (t : Turn) : Prop where
  used : t.hc.used ≠ 0
  parses : httpParseRequest t.hc.buf = .ok fileRequest
  phase : (fileReply t).hc.phase ≠ .read
  done : ((fileReply t).onWrite 0).1 = .done
  delivers : Delivers (fun i => UInt8.ofNat (i + 1)) (fileReply t).hc.fileSize
    (fileReply t).hc.fileOff (fileReply t).disk.sendfiles

/-- The acts that answer a request for the file. -/
theorem file_acts {t : Turn} (loop : Bool) (h : FileAsked t) :
    ActsIn fileSite 20 0 0 (Minds fiveBytes) (.parsing loop, t) (.applying .done, fileSent t) := by
  have hmethod : fileRequest.method ≠ .unknown := by decide +kernel
  have hroute : Reply fileSite 0 (t.parsed fileRequest).routed (fileReply t) := .docroot
  have hfiles : Delivering fiveBytes (.writing loop) (fileReply t) := by
    rintro - r - bytes hb -
    cases hb
    exact h.delivers
  have hwrite : Point.after loop ((fileReply t).onWrite 0).1 = .applying .done := by
    rw [h.done]
    unfold Point.after
    rw [if_neg (by simp)]
  refine .head ⟨⟨nofun, ?_⟩, .parse t fileRequest loop h.used h.parses⟩ ?_
  · rintro ⟨l, hl⟩
    cases hl
  refine .head ⟨⟨nofun, ?_⟩, .reply (t.parsed fileRequest) (fileReply t) loop h.parses hmethod hroute⟩ ?_
  · rintro ⟨l, hl⟩
    cases hl
  refine .head ⟨⟨nofun, ?_⟩, .deliver (fileReply t) loop h.phase⟩ ?_
  · rintro ⟨l, hl⟩
    cases hl
  refine .single ⟨⟨nofun, hfiles⟩, ?_⟩
  rw [← hwrite]
  exact .write (fileReply t) loop

/-- The states in which the two requests are complete, and the last one. -/
def pipelinedFirst : Turn :=
  ((Worker.start 1).admitted .unused 5 0 [] pipelinedSched pipelinedDisk).afterRead.2.received
    (getRequest.render ++ getRequest.render) 0

/-- The handler as it takes up the second request. -/
def pipelinedSecond : Turn := (fileSent pipelinedFirst).answered.nextRequest 0

/-- The handler after both. -/
def pipelinedLast : Turn := (fileSent pipelinedSecond).answered.nextRequest 0

theorem pipelinedFirst_asked : FileAsked pipelinedFirst :=
  ⟨by decide +kernel, by decide +kernel, by decide +kernel, by decide +kernel, by decide +kernel⟩

theorem pipelinedSecond_asked : FileAsked pipelinedSecond :=
  ⟨by decide +kernel, by decide +kernel, by decide +kernel, by decide +kernel, by decide +kernel⟩

theorem pipelined_acts : ActsIn fileSite 20 0 0 (Minds fiveBytes)
    (.rest, (Worker.start 1).admitted .unused 5 0 [] pipelinedSched pipelinedDisk)
    (.rest, pipelinedLast.armEvents 0 .wantRead) := by
  have hquiet : ∀ {p : Point} {t : Turn}, (∀ loop, p ≠ .writing loop) → p ≠ .begun true .wantRead →
      Minds fiveBytes p t := by
    intro p t hp hbegun
    refine ⟨hbegun, ?_⟩
    rintro ⟨l, hl⟩
    exact absurd hl (hp l)
  have hread : ((Worker.start 1).admitted .unused 5 0 [] pipelinedSched pipelinedDisk).afterRead.1 =
      .got (getRequest.render ++ getRequest.render) := by decide +kernel
  refine .head ⟨hquiet nofun nofun, .start _ rfl rfl rfl (by decide) rfl⟩ ?_
  refine .head ⟨hquiet nofun nofun, .receive _ _ (by decide) hread⟩ ?_
  refine (file_acts true pipelinedFirst_asked).trans ?_
  refine .head ⟨hquiet nofun nofun, .next (fileSent pipelinedFirst) (by decide +kernel)⟩ ?_
  refine (file_acts false pipelinedSecond_asked).trans ?_
  refine .head ⟨hquiet nofun nofun, .next (fileSent pipelinedSecond) (by decide +kernel)⟩ ?_
  refine .head ⟨hquiet nofun nofun, .empty pipelinedLast false (by decide +kernel)⟩ ?_
  exact .single ⟨hquiet nofun nofun, .arm pipelinedLast .wantRead ⟨nofun, nofun⟩ (by decide +kernel)⟩

theorem pipelined_step : (Worker.start 1).step fileSite 20 pipelinedAccept =
    some ((Worker.start 1).store 0 (pipelinedLast.armEvents 0 .wantRead)) := by decide +kernel

theorem pipelined_through :
    Worker.Through fileSite 20 (Minds fiveBytes) (Worker.start 1) pipelinedAccept := by
  intro w hw
  have hlast : (Worker.start 1).store 0 (pipelinedLast.armEvents 0 .wantRead) = w :=
    Option.some.inj (pipelined_step.symm.trans hw)
  have htend : Worker.Tend fileSite 20 (Minds fiveBytes) (Worker.start 1)
      ((Worker.start 1).store 0 (pipelinedLast.armEvents 0 .wantRead)) :=
    .enter (Worker.start 1) 5 0 0 [] .unused pipelinedSched pipelinedDisk _ rfl rfl rfl pipelined_acts
  rw [hlast] at htend
  exact Or.inl (.single htend)

/-- Both requests are answered with the file. -/
theorem reachable_answers_two : ∃ as, as = [pipelinedAccept] ∧
    ∃ w ∈ runStates (Worker.step fileSite 20) (Worker.start 1) as, ∃ s ∈ w.slots,
      s.trail.answers.length = 2 ∧
        List.Forall₂ (Answers fiveBytes) s.trail.routed s.trail.answers := by
  obtain ⟨as, has⟩ : ∃ as, as = [pipelinedAccept] := ⟨_, rfl⟩
  refine ⟨as, has, ?_⟩
  obtain ⟨w, hw, s, hs, hcount, hactive, hup, hphase⟩ := exists_of_run
    (p := fun w : Worker => ∃ s ∈ w.slots, s.trail.answers.length = 2 ∧ s.active = true ∧
      s.px.fd = none ∧ s.hc.phase = .read)
    (show (runTo (Worker.step fileSite 20) (Worker.start 1) as).any _ = true by
      rw [has]
      decide +kernel)
  obtain ⟨-, hall⟩ :=
    reachable_answers fileSite 20 1 fiveBytes as (.one has pipelined_through) w hw s hs
  exact ⟨w, hw, s, hs, hcount, hall ⟨hactive, hup, hphase⟩⟩

/-- A request with a body is relayed. -/
theorem reachable_owes_whole : ∃ as, as = [wholeAccept] ∧
    ∃ w ∈ runStates (Worker.step proxySite 20) (Worker.start 1) as, ∃ s ∈ w.slots,
      s.wire.conns.length = 1 ∧ s.Owes := by
  obtain ⟨as, has⟩ : ∃ as, as = [wholeAccept] := ⟨_, rfl⟩
  refine ⟨as, has, ?_⟩
  obtain ⟨w, hw, s, hs, hcount⟩ := exists_of_run
    (p := fun w : Worker => ∃ s ∈ w.slots, s.wire.conns.length = 1)
    (show (runTo (Worker.step proxySite 20) (Worker.start 1) as).any _ = true by
      rw [has]
      decide +kernel)
  exact ⟨w, hw, s, hs, hcount,
    reachable_owes proxySite 20 1 as (.one has whole_through) w hw s hs⟩

end TinyServer.Serve
