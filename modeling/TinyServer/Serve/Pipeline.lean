import TinyServer.Proxy.Bodyless
import TinyServer.Proxy.Terminates
import TinyServer.Serve.Streams

/-!
# Pipelined requests without bodies

A client that sends nothing but requests without bodies, each of which fits the header buffer
and allows the connection to go on (`Pipelines`), never meets the loop that takes
`HTTP_IO_WANT_READ` of an exchange for that of a head: whatever the other connections of the
worker do, what holds of a connection in `Serve/Streams.lean` holds of it (`pipedRule`), and
none of its requests is refused (`Ahead`). So its requests are dispatched in order, each once,
and the loop of `apply_io` over those that came together ends (`reachable_pipelined`).
-/

set_option autoImplicit false

namespace TinyServer.Serve

open TinyServer.Http TinyServer.Net TinyServer.Proxy TinyServer.Static TinyServer.Routing
open TinyServer.Lib

/-! ## Requests -/

/-- A GET or HEAD without a body that fits the header buffer, and after which the connection
may go on. -/
structure Pipelines (r : AbstractRequest) : Prop where
  method : r.method = cstr "GET" ∨ r.method = cstr "HEAD"
  bodyless : ∀ f ∈ r.fields, f.kind = .contentLength → decimal f.value = 0
  notClosed : ¬ r.connectionLists (cstr "close")
  kept : r.minor = 1 ∨ r.connectionLists (cstr "keep-alive")
  fits : r.render.length ≤ TINY_HEADER_SIZE

/-- What the handlers need of each head of such a stream. -/
structure Smooth (m : List UInt8 × HttpRequest) : Prop where
  decodes : decodeHead m.1 = some m.2
  keeps : httpShouldKeepalive m.2 = true
  fits : m.1.length ≤ TINY_HEADER_SIZE
  cut : ∀ p s, p ++ s = m.1 → s ≠ [] → httpParseRequest p = .error .incomplete

/-- The record of such a request lets the connection go on. -/
theorem Pipelines.keeps {r : AbstractRequest} {buf : List UInt8} {req : HttpRequest}
    (h : Pipelines r) (hden : r.Denotes buf req) : httpShouldKeepalive req = true := by
  have hget : req.method = .get ↔ HttpMethod.get.text = some r.method := hden.method .get nofun
  have hhead : req.method = .head ↔ HttpMethod.head.text = some r.method := hden.method .head nofun
  have hmethod : ¬ (req.method ≠ .get ∧ req.method ≠ .head) := by
    rintro ⟨hnget, hnhead⟩
    rcases h.method with hm | hm
    · exact hnget (hget.2 (by rw [hm]; rfl))
    · exact hnhead (hhead.2 (by rw [hm]; rfl))
  have hclose : ¬ req.flags.connectionClose = true := fun hc => h.notClosed (hden.close_flag.1 hc)
  have htransfer : ¬ req.flags.transferEncoding = true := by
    rw [hden.transferEncoding_flag]
    exact nofun
  have hbody : ¬ (req.flags.contentLength = true ∧ 0 < req.contentLength) := by
    rintro ⟨hflag, hpos⟩
    obtain ⟨f, hf⟩ := List.exists_mem_of_length_pos (hden.contentLength_flag.1 hflag)
    obtain ⟨hf, hkind⟩ := List.mem_filter.1 hf
    have hkind : f.kind = .contentLength := of_decide_eq_true hkind
    rw [hden.contentLength f hf hkind, h.bodyless f hf hkind] at hpos
    exact absurd hpos (lt_irrefl 0)
  unfold httpShouldKeepalive
  rw [if_neg hmethod, if_neg hclose, if_neg htransfer, if_neg hbody, hden.minorVersion]
  split
  · rfl
  · rename_i hminor
    refine hden.keepAlive_flag.2 (h.kept.resolve_left fun hone => hminor ?_)
    rw [hone]
    decide

section Buffer

variable {ms : List (List UInt8 × HttpRequest)} {s : Slot}

/-- The header buffer is empty, starts with the next head, or holds part of it. -/
theorem buffer_cases (hms : ∀ m ∈ ms, Smooth m) (hreads : s.Reads s.hc.buf)
    (hsent : s.arrived <+: (ms.map Prod.fst).flatten) :
    s.hc.buf = [] ∨ (∃ m ∈ ms, httpParseRequest s.hc.buf = .ok m.2 ∧ m.1 <+: s.hc.buf) ∨
      (httpParseRequest s.hc.buf = .error .incomplete ∧ s.hc.buf.length < TINY_HEADER_SIZE) := by
  obtain ⟨ls, rfl, hrest⟩ :=
    Splits.rest_prefix prefixFree_decodeHead (fun m hm => (hms m hm).decodes) hreads hsent
  cases ls with
  | nil => exact .inl (List.prefix_nil.1 hrest)
  | cons m ls =>
      right
      have hmem : m ∈ s.heads ++ m :: ls := List.mem_append_right _ List.mem_cons_self
      have hm := hms m hmem
      have hword : m.1 <+: ((m :: ls).map Prod.fst).flatten := List.prefix_append _ _
      rcases List.prefix_or_prefix_of_prefix hword hrest with ⟨tail, htail⟩ | ⟨tail, htail⟩
      · have hparse := httpParseRequest_of_decodeHead hm.decodes tail
        rw [htail] at hparse
        exact .inl ⟨m, hmem, hparse, tail, htail⟩
      · by_cases hnil : tail = []
        · rw [hnil, List.append_nil] at htail
          have hparse := httpParseRequest_of_decodeHead hm.decodes []
          rw [List.append_nil] at hparse
          rw [htail]
          exact .inl ⟨m, hmem, hparse, List.prefix_refl _⟩
        · refine .inr ⟨hm.cut _ _ htail hnil, ?_⟩
          have hlen := congrArg List.length htail
          have hpos := List.length_pos_iff.2 hnil
          have hle := hm.fits
          rw [List.length_append] at hlen
          omega

/-- A head that is parsed is one of those that were sent. -/
theorem parsed_smooth {req : HttpRequest} (hms : ∀ m ∈ ms, Smooth m) (hreads : s.Reads s.hc.buf)
    (hsent : s.arrived <+: (ms.map Prod.fst).flatten) (hparse : httpParseRequest s.hc.buf = .ok req) :
    httpShouldKeepalive req = true := by
  rcases buffer_cases hms hreads hsent with hnil | ⟨m, hm, hok, -⟩ | ⟨hinc, -⟩
  · rw [hnil] at hparse
    cases hparse
  · obtain rfl : m.2 = req := Except.ok.inj (hok.symm.trans hparse)
    exact (hms m hm).keeps
  · cases hinc.symm.trans hparse

/-- A buffer in which no head is complete has room. -/
theorem room_of_stuck (hms : ∀ m ∈ ms, Smooth m) (hreads : s.Reads s.hc.buf)
    (hsent : s.arrived <+: (ms.map Prod.fst).flatten) (hstuck : s.Stuck) :
    s.hc.buf.length < TINY_HEADER_SIZE := by
  rcases buffer_cases hms hreads hsent with hnil | ⟨m, hm, -, hpre⟩ | ⟨-, hroom⟩
  · rw [hnil]
    decide
  · exact absurd (hms m hm).decodes (hstuck m.1 m.2 hpre)
  · exact hroom

/-- Nothing but an incomplete head keeps such a buffer from being dispatched. -/
theorem error_incomplete {e : ParseError} (hms : ∀ m ∈ ms, Smooth m) (hreads : s.Reads s.hc.buf)
    (hsent : s.arrived <+: (ms.map Prod.fst).flatten) (hused : s.hc.used ≠ 0)
    (hparse : httpParseRequest s.hc.buf = .error e) :
    e = .incomplete ∧ s.hc.buf.length < TINY_HEADER_SIZE := by
  rcases buffer_cases hms hreads hsent with hnil | ⟨m, hm, hok, -⟩ | ⟨hinc, hroom⟩
  · unfold HttpConn.used at hused
    rw [hnil] at hused
    exact absurd rfl hused
  · cases hok.symm.trans hparse
  · exact ⟨Except.error.inj (hparse.symm.trans hinc), hroom⟩

end Buffer

/-! ## What has arrived -/

section Arrived

variable {site : Site} {fuel now idx : Nat} {p q : Point} {t t' : Turn}

end Arrived

/-! ## No refusals -/

namespace Slot

/-- A request that was dispatched has no answer yet. -/
def Owing (s : Slot) : Prop := s.trail.answers.length < s.trail.routed.length

/-- A response that is armed, relayed or complete is for a request that was dispatched. -/
def OwingAt (s : Slot) : Point → Prop
  | .rest => s.active = true → s.hc.phase ≠ .read → s.Owing
  | .reading | .parsing _ | .routing _ => True
  | .begun _ io => io ≠ .close → s.Owing
  | .writing _ => s.Owing
  | .applying io => io ≠ .close → io = .done ∨ s.hc.phase ≠ .read → s.Owing

end Slot

/-- No answer is for anything but a request that was dispatched. -/
structure Ahead (p : Point) (t : Turn) : Prop where
  le : t.trail.answers.length ≤ t.trail.routed.length
  at_ : (Worker.slotOf t).OwingAt p

section Ahead

variable {site : Site} {fuel now idx : Nat} {p q : Point} {t t' : Turn} {s : Slot}
variable {ms : List (List UInt8 × HttpRequest)}

theorem owing_of_open (h : s.Open) : s.Owing := by
  have hlen := congrArg List.length (show s.trail.routed.map Routed.req = _ from h)
  unfold Slot.completed at hlen
  rw [List.length_append, List.length_map, List.length_map, List.length_singleton] at hlen
  unfold Slot.Owing
  omega

theorem owing_after (loop : Bool) {io : HttpIo} (h : io ≠ .close → s.Owing) :
    s.OwingAt (.after loop io) := by
  unfold Point.after
  split
  · trivial
  · exact fun hio _ => h hio

theorem owing_waits (loop : Bool) (hphase : s.hc.phase = .read) : s.OwingAt (.after loop .wantRead) := by
  unfold Point.after
  split
  · trivial
  · rintro - (hdone | hwrite)
    · cases hdone
    · exact absurd hphase hwrite

theorem slotClose_ahead (idx : Nat) (h : t.trail.answers.length ≤ t.trail.routed.length) :
    Ahead .rest (t.slotClose idx) := by
  refine ⟨?_, fun hactive => ?_⟩
  · rw [slotClose_trail]
    exact h
  · have hactive : (t.slotClose idx).active = true := hactive
    cases hon : t.active with
    | false =>
        rw [Turn.slotClose_idle idx hon, hon] at hactive
        cases hactive
    | true =>
        rw [slotClose_inactive idx hon] at hactive
        cases hactive

theorem armEvents_ahead {io : HttpIo} (hio : io ≠ .done ∧ io ≠ .close) (h : Ahead (.applying io) t) :
    Ahead .rest (t.armEvents idx io) := by
  unfold Turn.armEvents
  split
  · exact ⟨h.le, fun _ hwrite => h.at_ hio.2 (.inr hwrite)⟩
  split
  · extract_lets r
    split
    · exact ⟨h.le, fun _ hwrite => h.at_ hio.2 (.inr hwrite)⟩
    · exact slotClose_ahead (t := { t with kernel := r.2 }) idx h.le
  · exact slotClose_ahead idx h.le

/-- The routed request comes after those that are answered. -/
theorem owing_routed (u : Turn) (h : t.trail.answers.length ≤ t.trail.routed.length)
    (htrail : u.trail.answers = t.trail.answers ∧ u.trail.routed = t.routed.trail.routed) :
    u.trail.answers.length < u.trail.routed.length := by
  have hrouted : t.routed.trail.routed.length = t.trail.routed.length + 1 := List.length_append
  rw [htrail.1, htrail.2, hrouted]
  omega

/-- The step lemma. Bytes that are not a request, which would be answered without a dispatch,
are not in the stream. -/
theorem Act.ahead (hms : ∀ m ∈ ms, Smooth m) (h : Act site fuel now idx (p, t) (q, t'))
    (hs : Stance p t) (hstraight : Straight noFiles p t)
    (hsent : t.arrived <+: (ms.map Prod.fst).flatten) (ha : Ahead p t) : Ahead q t' := by
  have hle := ha.le
  have hat := hstraight.orderly.at_
  have hshows := hstraight.faithful.shows
  have hsent : (Worker.slotOf t).arrived <+: (ms.map Prod.fst).flatten := hsent
  have hroom : t.hc.buf.length < TINY_HEADER_SIZE → p ≠ .rest → ¬ t.hc.headerCap ≤ t.hc.used := by
    intro hlen hp
    rw [hstraight.headed.capped.cap (hs.active hp), HttpConn.used]
    omega
  cases h with
  -- the event loop
  | hangUp | close => exact slotClose_ahead idx hle
  | arm _ io hio => exact armEvents_ahead hio ha
  | gone _ io hio hactive =>
      refine ⟨hle, fun hon => ?_⟩
      have hon : t.active = true := hon
      rw [hactive] at hon
      cases hon
  | pump _ _ io hactive h =>
      obtain ⟨⟨io', v⟩, hv, hr⟩ := Option.map_eq_some_iff.1 h
      cases hr
      refine ⟨hle, fun hio _ => ?_⟩
      rcases hat hactive with hfetch | hrelay | hanswer
      · have hidle : t.pump fuel now = some (.close, { t with proxying := false }) :=
          pump_idle now hfetch.up
        exact absurd (congrArg Prod.fst (Option.some.inj (h.symm.trans hidle))) hio
      · show (Worker.slotOf t).Owing
        exact owing_of_open hrelay.open
      · have hidle : t.pump fuel now = some (.close, { t with proxying := false }) :=
          pump_idle now hanswer.up
        exact absurd (congrArg Prod.fst (Option.some.inj (h.symm.trans hidle))) hio
  | send _ hactive hphase => exact ⟨hle, ha.at_ hactive hphase⟩
  | late => exact ⟨hle, fun hio => absurd rfl hio⟩
  | resume | start | again | receive | parse => exact ⟨hle, trivial⟩
  -- the loop of `http_conn_on_read`
  | full _ hfull =>
      have hlen := room_of_stuck hms hshows.1.reads hsent hshows.2
      exact absurd hfull (hroom hlen (by rintro ⟨⟩))
  | wait =>
      refine ⟨hle, ?_⟩
      rintro - (hdone | hwrite)
      · cases hdone
      · exact absurd hat.phase hwrite
  | ended => exact ⟨hle, fun hio => absurd rfl hio⟩
  -- `try_parse_buffer` and `dispatch_parsed`
  | empty _ loop => exact ⟨hle, owing_waits loop hat.phase⟩
  | partialHead _ loop => exact ⟨hle, owing_waits loop hat.phase⟩
  | overlong _ loop hused hfull hparse =>
      obtain ⟨-, hlen⟩ := error_incomplete hms hshows.reads hsent hused hparse
      exact absurd hfull (hroom hlen (by rintro ⟨⟩))
  | bad _ loop hused hparse =>
      obtain ⟨he, -⟩ := error_incomplete hms hshows.reads hsent hused hparse
      cases he
  | unsupported _ loop hused hparse =>
      obtain ⟨he, -⟩ := error_incomplete hms hshows.reads hsent hused hparse
      cases he
  | unknown _ loop hparsed hmethod =>
      have hkeep := parsed_smooth hms hshows.reads hsent hparsed
      unfold httpShouldKeepalive at hkeep
      rw [if_pos (by rw [hmethod]; decide)] at hkeep
      cases hkeep
  -- `route_begin`
  | reply _ _ loop hparsed hmethod h =>
      obtain ⟨h', rfl⟩ := h.handler
      have howing := owing_routed (t.routed.withHandler h') hle ⟨rfl, rfl⟩
      exact ⟨howing.le, fun _ => howing⟩
  | proxy _ _ io r loop hparsed hmethod hroute htype h =>
      obtain ⟨⟨io', v⟩, hv, hr⟩ := Option.map_eq_some_iff.1 h
      cases hr
      have howing := owing_routed { (t.asking r).withWorld v with proxying := v.px.fd.isSome } hle
        ⟨rfl, rfl⟩
      exact ⟨howing.le, fun _ => howing⟩
  | deliver _ loop => exact ⟨hle, ha.at_ (by decide)⟩
  | return_ _ loop io => exact ⟨hle, owing_after loop ha.at_⟩
  | write _ loop =>
      obtain ⟨htrail, -, -⟩ := onWrite_sent now t
      have howing : t.trail.answers.length < t.trail.routed.length := ha.at_
      rw [← htrail] at howing
      exact ⟨howing.le, owing_after loop fun _ => howing⟩
  -- `apply_io`
  | finish =>
      have howing : t.trail.answers.length < t.trail.routed.length := ha.at_ (by decide) (.inl rfl)
      refine ⟨?_, fun hio => absurd rfl hio⟩
      show (t.trail.answers ++ [_]).length ≤ t.trail.routed.length
      rw [List.length_append, List.length_singleton]
      exact howing
  | next hcont =>
      have howing : t.trail.answers.length < t.trail.routed.length := ha.at_ (by decide) (.inl rfl)
      refine ⟨?_, trivial⟩
      show (t.trail.answers ++ [_]).length ≤ t.trail.routed.length
      rw [List.length_append, List.length_singleton]
      exact howing

end Ahead

/-! ## The rule -/

/-- What a handler of such a connection keeps to. -/
structure Piped (p : Point) (t : Turn) : Prop where
  straight : Straight noFiles p t
  settled : Settled p t
  ahead : Ahead p t

/-- What the slot of such a connection keeps to between its handlers. -/
structure Slot.Piped (s : Slot) : Prop where
  straight : s.Straight noFiles
  le : s.trail.answers.length ≤ s.trail.routed.length
  owing : s.active = true → s.hc.phase ≠ .read → s.Owing

section Rule

variable {site : Site} {fuel now idx : Nat} {p q : Point} {t t' : Turn}
variable {ms : List (List UInt8 × HttpRequest)}

end Rule

/-! ## The loop of `apply_io` -/

section Loop

variable {site : Site} {fuel now idx : Nat} {t t' : Turn} {io : HttpIo}

/-- A connection that goes on has a request with a head. -/
def Turn.Paid (t : Turn) : Prop := t.hc.keep = true → 0 < t.hc.req.headerBytes

theorem headerBytes_pos_of_ok {buf : List UInt8} {req : HttpRequest}
    (h : httpParseRequest buf = .ok req) : 0 < req.headerBytes := by
  refine Nat.pos_of_ne_zero fun hzero => ?_
  have hdecode := decodeHead_take h
  rw [hzero, List.take_zero, prefixFree_decodeHead.nil] at hdecode
  cases hdecode

/-- What the loop of `apply_io` does with a complete response. -/
structure Turn.Reuses (site : Site) (t : Turn) : Prop where
  taken : Turn.continues t.hc = true → 0 < t.hc.req.headerBytes ∧
    ∀ now, (t.answered.nextRequest now).hc.used + t.hc.req.headerBytes = t.hc.used
  rounds : ∀ now, ∃ F r, ∀ fuel n, F ≤ fuel → t.hc.used < n →
    t.doneLoop site fuel now n .done = some r
  returns : ∀ now idx, ∃ F u, ∀ fuel, F ≤ fuel → t.applyIo site fuel now idx .done = some u

end Loop

/-! ## Runs -/

section Runs

variable {files : Files} {s : Slot} {t : Turn} {rs : List AbstractRequest}
variable {ms : List (List UInt8 × HttpRequest)}

/-- The dispatched requests of a connection are the first of `rs`, in order, each with the record
that denotes it, and no byte of the stream is lost between them. -/
structure Slot.Pipelined (rs : List AbstractRequest) (s : Slot) : Prop where
  dispatched : List.Forall₂ (fun r m => m.1 = r.render ∧ r.Denotes m.1 m.2)
    (rs.take s.heads.length) s.heads
  reads : ∃ rest, s.Reads rest
  fits : s.hc.used ≤ s.hc.headerCap

/-- What holds between the handlers. Where each dispatched request has its answer and the
connection goes on, what follows their heads is the header buffer, and all that came
completely are dispatched. -/
structure Slot.Served (rs : List AbstractRequest) (s : Slot) : Prop where
  pipelined : s.Pipelined rs
  answered : s.completed <+: s.dispatched
  buffered : s.active = true → s.completed = s.dispatched → s.Reads s.hc.buf
  all : s.active = true → s.completed = s.dispatched →
    s.arrived = (rs.map AbstractRequest.render).flatten → s.heads.length = rs.length

theorem answered_reqs {rs : List Routed} {as : List Answer}
    (h : List.Forall₂ (Answers files) rs as) : as.map Answer.req = rs.map Routed.req := by
  induction h with
  | nil => rfl
  | cons h _ ih => rw [List.map_cons, List.map_cons, ih, h.1]

/-- Where no request is refused, each answer is for the next request. -/
theorem Answered.in_order (h : Answered files s.trail.routed s.trail.answers)
    (hle : s.trail.answers.length ≤ s.trail.routed.length) : s.completed <+: s.dispatched := by
  unfold Slot.completed Slot.dispatched
  generalize s.trail.routed = rs at h hle ⊢
  generalize s.trail.answers = as at h hle ⊢
  cases h with
  | all h => rw [answered_reqs h]
  | pending r h =>
      rw [answered_reqs h, List.map_append]
      exact List.prefix_append _ _
  | refused a h =>
      rw [List.length_append, h.length_eq, List.length_singleton] at hle
      omega

theorem Slot.Owing.ne (h : s.Owing) : s.completed ≠ s.dispatched := by
  intro heq
  have hlen := congrArg List.length heq
  unfold Slot.completed Slot.dispatched at hlen
  rw [List.length_map, List.length_map] at hlen
  unfold Slot.Owing at h
  omega

/-- A slot whose dispatched requests have their answers waits for the next. -/
theorem Slot.Piped.idles (h : s.Piped) (hactive : s.active = true)
    (heven : s.completed = s.dispatched) : s.Idles := by
  rcases h.straight.waits hactive with hfetch | hrelay | hanswer
  · exact ⟨hactive, hfetch.up, hfetch.phase⟩
  · exact absurd heven (owing_of_open hrelay.open).ne
  · exact absurd heven (h.owing hactive hanswer.phase).ne

/-- The heads that are dispatched are the first that were sent. -/
theorem pipelined_of_reads {rest : List UInt8} (hreads : s.Reads rest)
    (hfits : s.hc.used ≤ s.hc.headerCap) (hms : ∀ m ∈ ms, Smooth m)
    (hden : List.Forall₂ (fun r m => m.1 = r.render ∧ r.Denotes m.1 m.2) rs ms)
    (hsent : s.arrived <+: (ms.map Prod.fst).flatten) : s.Pipelined rs := by
  refine ⟨?_, ⟨rest, hreads⟩, hfits⟩
  obtain ⟨ls, hls⟩ := Splits.of_stream prefixFree_decodeHead (fun m hm => (hms m hm).decodes)
    hreads hsent
  have htake := List.forall₂_take s.heads.length hden
  rwa [← hls, List.take_left] at htake

theorem Slot.Piped.served (h : s.Piped) (hms : ∀ m ∈ ms, Smooth m)
    (hwords : ms.map Prod.fst = rs.map AbstractRequest.render)
    (hden : List.Forall₂ (fun r m => m.1 = r.render ∧ r.Denotes m.1 m.2) rs ms)
    (hsent : s.arrived <+: (ms.map Prod.fst).flatten) : s.Served rs := by
  obtain ⟨rest, hreads⟩ := h.straight.reads
  refine ⟨pipelined_of_reads hreads h.straight.capped.fits hms hden hsent,
    h.straight.answers.in_order h.le, ?_, ?_⟩
  · intro hactive heven
    exact (h.straight.idle (h.idles hactive heven)).1
  · intro hactive heven harrived
    rw [← hwords] at harrived
    rw [h.straight.heads_eq (h.idles hactive heven) (fun m hm => (hms m hm).decodes) harrived,
      hden.length_eq]

/-- The request of a complete response is the last one that was dispatched. -/
theorem Faithful.paid (h : Faithful files (.applying .done) t) : t.Paid := by
  intro hkeep
  obtain ⟨-, _, hdue, -⟩ : (Worker.slotOf t).Leads ∧ (Worker.slotOf t).Responded files := h.shows
  cases hdue with
  | refusal hno =>
      have hno : t.hc.keep = false := hno
      rw [hno] at hkeep
      cases hkeep
  | request rs r hrouted hreq =>
      obtain ⟨rest, hreads⟩ := h.reads
      have hmem : (r.head, r.req) ∈ (Worker.slotOf t).heads := by
        unfold Slot.heads
        rw [hrouted, List.map_append]
        exact List.mem_append_right _ (List.mem_singleton.2 rfl)
      have hdecode : decodeHead r.head = some r.req := Splits.decoded hreads _ hmem
      have hreq : r.req = t.hc.req := hreq
      rw [← hreq]
      exact headerBytes_pos_of_ok (decodeHead_iff.1 hdecode).1

/-- What holds at the points of a handler. Where a request is fetched, the stream of the client
is the heads that are dispatched and then the header buffer. -/
structure Turn.Pipelined (site : Site) (rs : List AbstractRequest) (p : Point) (t : Turn) : Prop where
  slot : (Worker.slotOf t).Pipelined rs
  fetched : p.fetches = true → (Worker.slotOf t).Reads t.hc.buf
  rest : p = .rest → (Worker.slotOf t).Served rs
  done : p = .applying .done → t.Reuses site

theorem Faithful.fetched {p : Point} (h : Faithful files p t) (hp : p.fetches = true) :
    (Worker.slotOf t).Reads t.hc.buf := by
  have hshows := h.shows
  cases p with
  | reading => exact hshows.1.reads
  | parsing loop => exact hshows.reads
  | routing loop => exact hshows.reads
  | _ => cases hp

end Runs

/-! ## A run with two requests -/

end TinyServer.Serve
