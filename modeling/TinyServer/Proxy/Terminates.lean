import TinyServer.Lib.Fuel
import TinyServer.Proxy.Waits

/-!
# The loop of `proxy_pump` ends

A turn that goes round again spends budget, gives up a reused socket or takes an
interrupted read; or else it moves to a later phase, or drops a 1xx head from the
buffer (`Descends`). Only the first three are limited from outside, so the turns are
bounded by the budget and the interruptions to come (`turns`), whatever the sockets do
otherwise.
-/

set_option autoImplicit false

namespace TinyServer.Net

/-! ## Interruptions -/

/-- How many of the results to come are interruptions. -/
def readInterruptions (rs : List ReadResult) : Nat := rs.count .interrupted

/-- The interrupted sends to come. -/
def sendInterruptions (rs : List SendResult) : Nat := rs.count .interrupted

/-- A read takes one result, or a part of it. -/
theorem readOnce_interruptions (rs : List ReadResult) (room : Nat) :
    readInterruptions (readOnce rs room).2 ≤ readInterruptions rs ∧
      ((readOnce rs room).1 = .interrupted →
        readInterruptions (readOnce rs room).2 < readInterruptions rs) := by
  unfold readInterruptions
  cases rs with
  | nil => exact ⟨le_rfl, nofun⟩
  | cons r rs =>
      cases r with
      | interrupted =>
          rw [readOnce, List.count_cons_self]
          exact ⟨Nat.le_succ _, fun _ => Nat.lt_succ_self _⟩
      | wouldBlock => exact ⟨List.count_le_count_cons, nofun⟩
      | error => exact ⟨List.count_le_count_cons, nofun⟩
      | data bytes =>
          cases bytes with
          | nil => exact ⟨List.count_le_count_cons, nofun⟩
          | cons b bs =>
              rw [readOnce]
              refine ⟨?_, nofun⟩
              have htail : List.count .interrupted (.data (b :: bs) :: rs) =
                  List.count ReadResult.interrupted rs := List.count_cons_of_ne (by simp)
              simp only
              split
              · exact htail.ge
              · rw [htail, List.count_cons_of_ne (by simp)]

/-- A retried read makes one call more than it is interrupted. -/
theorem readRetry_calls (rs : List ReadResult) (room : Nat) :
    rs.length ≤ (readRetry rs room).2.length + readInterruptions rs + 1 := by
  induction rs with
  | nil => exact Nat.zero_le _
  | cons r rs ih =>
      cases r with
      | interrupted =>
          rw [readRetry, readInterruptions, List.count_cons_self, List.length_cons]
          unfold readInterruptions at ih
          omega
      | data bytes =>
          cases bytes with
          | nil =>
              show rs.length + 1 ≤ rs.length + _ + 1
              omega
          | cons b bs =>
              show rs.length + 1 ≤ (if (b :: bs).drop room = [] then rs
                else .data ((b :: bs).drop room) :: rs).length + _ + 1
              split
              · omega
              · rw [List.length_cons]
                omega
      | wouldBlock =>
          show rs.length + 1 ≤ rs.length + _ + 1
          omega
      | error =>
          show rs.length + 1 ≤ rs.length + _ + 1
          omega

/-- The loop of sends makes at most one call for each byte, one for each interruption,
and one that ends it. -/
theorem sendLoop_calls (rs : List SendResult) : ∀ data : List UInt8,
    rs.length ≤ (sendLoop rs data).2.2.length + data.length + sendInterruptions rs + 1 := by
  unfold sendInterruptions
  induction rs with
  | nil => exact fun data => Nat.zero_le _
  | cons r rs ih =>
      intro data
      cases data with
      | nil =>
          simp only [sendLoop]
          omega
      | cons b bs =>
          cases r with
          | interrupted =>
              have := ih (b :: bs)
              simp only [sendLoop, List.count_cons_self, List.length_cons] at this ⊢
              omega
          | wouldBlock =>
              simp only [sendLoop, List.length_cons]
              omega
          | error =>
              simp only [sendLoop, List.length_cons]
              omega
          | sent n =>
              have htail : List.count .interrupted (.sent n :: rs) =
                  List.count SendResult.interrupted rs := List.count_cons_of_ne (by simp)
              have := ih ((b :: bs).drop n)
              rw [List.length_drop] at this
              rw [sendLoop, htail]
              split
              · simp only [List.length_cons]
                omega
              · simp only [List.length_cons] at this ⊢
                omega

/-- A send takes one call, and one more for each interruption. -/
theorem sendOnce_calls (rs : List SendResult) (len : Nat) :
    rs.length ≤ (sendOnce rs len).2.2.length + sendInterruptions rs + 1 := by
  unfold sendInterruptions
  induction rs with
  | nil => exact Nat.zero_le _
  | cons r rs ih =>
      cases r with
      | interrupted =>
          simp only [sendOnce, List.count_cons_self, List.length_cons]
          omega
      | wouldBlock =>
          simp only [sendOnce, List.length_cons]
          omega
      | error =>
          simp only [sendOnce, List.length_cons]
          omega
      | sent n =>
          rw [sendOnce, List.length_cons]
          split <;> simp only <;> omega

/-! ## What the calls leave -/

section Calls

variable (k : Kernel)

@[simp] theorem send_upstreamReads (e : End) (data : List UInt8) :
    (k.send e data).2.2.sched.upstreamReads = k.sched.upstreamReads := by
  cases e <;> rfl

@[simp] theorem sendmsg_upstreamReads (e : End) (data : List UInt8) :
    (k.sendmsg e data).2.2.sched.upstreamReads = k.sched.upstreamReads := by
  cases e <;> rfl

@[simp] theorem readThrough_client_upstreamReads (room : Nat) :
    (k.readThrough .client room).2.sched.upstreamReads = k.sched.upstreamReads := by
  unfold Kernel.readThrough
  rw [Kernel.recordRead_sched]
  rfl

@[simp] theorem read_upstreamReads (room : Nat) : (k.read .upstream room).2.sched.upstreamReads =
    (readOnce k.sched.upstreamReads room).2 := by
  unfold Kernel.read
  rw [Kernel.recordRead_sched]
  rfl

end Calls

end TinyServer.Net

namespace TinyServer.Proxy

open TinyServer.Http TinyServer.Net TinyServer.Lib

/-! ## What a turn uses up -/

/-- The order of the phases, from the last one up. -/
def PxPhase.rank : PxPhase → Nat
  | .sendReq => 4
  | .sendBody => 3
  | .recvHdr => 2
  | .sendResp => 1
  | .stream => 0
  | .none => 0

theorem PxPhase.rank_lt (p : PxPhase) : p.rank < 5 := by
  cases p <;> decide

namespace World

/-- The bytes of the header buffer that are still to be sent are in it. -/
def BodyInBuffer (w : World) : Prop := w.px.bodyOff < w.px.bodyEnd → w.px.bodyEnd ≤ w.hc.used

instance (w : World) : Decidable w.BodyInBuffer := inferInstanceAs (Decidable (_ → _))

/-- The fields of a world that most steps of a turn leave alone. -/
structure Gauge where
  reused : Bool
  reads : List ReadResult
  input : List UInt8
  bodyEnd : Nat

/-- What a slot shows of it. -/
def gauge (w : World) : Gauge :=
  ⟨w.px.flags.reused, w.kernel.sched.upstreamReads, w.hc.buf, w.px.bodyEnd⟩

/-- The interruptions to come, and the reused socket that may be given up. -/
def Gauge.spare (g : Gauge) : Nat := readInterruptions g.reads + g.reused.toNat

/-- The interrupted reads and the reopening that are left. -/
def spare (w : World) : Nat := w.gauge.spare

/-- What is spare for a retry: interrupted reads still to come, and the one reuse of an idle
socket. -/
theorem spare_eq (w : World) : w.spare =
    readInterruptions w.kernel.sched.upstreamReads + w.px.flags.reused.toNat := rfl

/-- The room the upstream buffer may come to need. -/
def room (w : World) : Nat := max w.px.buf.length PROXY_BUF_MAX

section Gauges

variable (w : World)

@[simp] theorem touch_gauge (now : Nat) : (w.touch now).gauge = w.gauge := rfl

@[simp] theorem moved_input (now n : Nat) : (w.moved now n).hc.buf = w.hc.buf := by
  unfold moved
  split <;> rfl

@[simp] theorem moved_gauge (now n : Nat) : (w.moved now n).gauge = w.gauge := by
  unfold moved
  split <;> rfl

@[simp] theorem markSent_gauge (n : Nat) : (w.markSent n).gauge = w.gauge := by
  unfold markSent
  split <;> rfl

@[simp] theorem corkUp_gauge (on : Bool) : (w.corkUp on).gauge = w.gauge := by
  unfold corkUp
  split
  · rfl
  split
  · rfl
  · simp only
    split <;> rfl

@[simp] theorem corkClient_gauge (on : Bool) : (w.corkClient on).gauge = w.gauge := by
  unfold corkClient
  split
  · rfl
  split
  · rfl
  · simp only
    split <;> rfl

theorem dropUpstream_gauge : w.dropUpstream.gauge = { w.gauge with reused := false } := by
  unfold dropUpstream
  split
  · rfl
  · unfold detach
    simp only
    split <;> split <;> rfl

/-- A new connection takes no read, and it is not a reused one. -/
theorem proxyReopen_gauge : w.proxyReopen.2.gauge = { w.gauge with reused := false } := by
  have hdrop := w.dropUpstream_gauge
  unfold proxyReopen
  simp only
  split
  · exact hdrop
  · split
    · exact (corkUp_gauge _ true).trans hdrop
    · exact hdrop

end Gauges

end World

/-! ## One turn -/

section Turns

variable {w : World} {now b : Nat}

/-- What a turn that goes round again has used up: from `w` with the budget `b` to `v`
with the budget `c`. -/
structure Descends (b : Nat) (w : World) (c : Nat) (v : World) : Prop where
  spare : v.spare ≤ w.spare
  budget : c ≤ b
  used : v.spare < w.spare ∨ c < b ∨ v.px.phase.rank < w.px.phase.rank ∨
    v.px.phase.rank = w.px.phase.rank ∧ v.px.buf.length < w.px.buf.length
  room : v.px.buf.length ≤ w.room
  body : w.BodyInBuffer → v.BodyInBuffer

/-- What holds of every turn. -/
def TurnDescends (b : Nat) (w : World) (r : World × Exit) : Prop :=
  match r.2 with
  | .again c => Descends b w c r.1
  | _ => True

/-- A turn that leaves the request body as it was. -/
theorem Descends.of_gauge {c : Nat} {v : World} (hspare : v.spare ≤ w.spare)
    (hbudget : c ≤ b) (hused : v.spare < w.spare ∨ c < b ∨ v.px.phase.rank < w.px.phase.rank ∨
      v.px.phase.rank = w.px.phase.rank ∧ v.px.buf.length < w.px.buf.length)
    (hroom : v.px.buf.length ≤ w.room) (hinput : v.hc.buf = w.hc.buf)
    (hend : v.px.bodyEnd = w.px.bodyEnd) (hoff : w.px.bodyOff ≤ v.px.bodyOff) :
    Descends b w c v := by
  refine ⟨hspare, hbudget, hused, hroom, ?_⟩
  intro hb hlt
  have hused : v.hc.used = w.hc.used := congrArg List.length hinput
  rw [hused, hend]
  exact hb (by omega)

/-- After a call that moved bytes only the bounds count. -/
theorem TurnDescends.spent {c : Nat} {v : World} {r : World × Exit} (h : TurnDescends c v r)
    (hbudget : c < b) (hspare : v.spare ≤ w.spare) (hroom : v.room ≤ w.room)
    (hbody : w.BodyInBuffer → v.BodyInBuffer) : TurnDescends b w r := by
  obtain ⟨u, e⟩ := r
  cases e with
  | again d =>
      have hd : Descends c v d u := h
      exact ⟨hd.spare.trans hspare, hd.budget.trans hbudget.le,
        Or.inr (Or.inl (hd.budget.trans_lt hbudget)), hd.room.trans hroom,
        fun hb => hd.body (hbody hb)⟩
  | yield u c => trivial
  | fail => trivial
  | close => trivial
  | done => trivial
  | ret io => trivial

/-- What a turn compares. -/
structure SameLoad (w v : World) : Prop where
  gauge : v.gauge = w.gauge
  phase : v.px.phase = w.px.phase
  buf : v.px.buf = w.px.buf
  bodyOff : v.px.bodyOff = w.px.bodyOff

theorem SameLoad.spare {v : World} (h : SameLoad w v) : v.spare = w.spare :=
  congrArg World.Gauge.spare h.gauge

theorem SameLoad.body {v : World} (h : SameLoad w v) (hb : w.BodyInBuffer) : v.BodyInBuffer := by
  have hin : v.hc.buf = w.hc.buf := congrArg World.Gauge.input h.gauge
  have hend : v.px.bodyEnd = w.px.bodyEnd := congrArg World.Gauge.bodyEnd h.gauge
  unfold World.BodyInBuffer HttpConn.used at hb ⊢
  rw [h.bodyOff, hend, hin]
  exact hb

theorem SameLoad.room {v : World} (h : SameLoad w v) : v.room = w.room := by
  unfold World.room
  rw [h.buf]

/-- What a turn uses up is counted from any world of the same load. -/
theorem TurnDescends.of_same {v : World} {r : World × Exit} (h : TurnDescends b v r)
    (hs : SameLoad w v) : TurnDescends b w r := by
  obtain ⟨u, e⟩ := r
  cases e with
  | again d =>
      have hd : Descends b v d u := h
      have hused := hd.used
      rw [hs.spare, hs.phase, hs.buf] at hused
      exact ⟨hs.spare ▸ hd.spare, hd.budget, hused, hs.room ▸ hd.room,
        fun hb => hd.body (hs.body hb)⟩
  | yield u c => trivial
  | fail => trivial
  | close => trivial
  | done => trivial
  | ret io => trivial

/-- A turn that moves bytes takes from the budget. -/
theorem spend_lt {n : Nat} (hb : b ≠ 0) (hn : n ≠ 0) : World.spend b n < b := by
  unfold World.spend
  rw [if_neg hn]
  omega

/-- A loop of sends that sent all of some bytes moved bytes. -/
theorem send_ne_zero {k : Kernel} {e : End} {data : List UInt8} (hdata : data ≠ [])
    (h : (k.send e data).2.1 = .done) : (k.send e data).1 ≠ 0 := by
  rw [(send_done k e data).1 h]
  exact fun hz => hdata (List.length_eq_zero_iff.1 hz)

theorem drop_ne_nil {bytes : List UInt8} {off : Nat} (h : off < bytes.length) :
    bytes.drop off ≠ [] := by
  intro hnil
  have := List.drop_eq_nil_iff.1 hnil
  omega

/-- A step that clears the buffer on its way to a later phase. -/
theorem clear_descends {v : World} (hgauge : v.gauge = w.gauge) (hbuf : v.px.buf = [])
    (hrank : v.px.phase.rank < w.px.phase.rank) (hoff : v.px.bodyOff = w.px.bodyOff) :
    Descends b w b v := by
  have hspare : v.spare = w.spare := congrArg World.Gauge.spare hgauge
  apply Descends.of_gauge hspare.le le_rfl (Or.inr (Or.inr (Or.inl hrank)))
  · rw [hbuf]
    exact Nat.zero_le _
  · exact congrArg World.Gauge.input hgauge
  · exact congrArg World.Gauge.bodyEnd hgauge
  · exact hoff.ge

theorem corkUp_bodyOff (on : Bool) : (w.corkUp on).px.bodyOff = w.px.bodyOff :=
  congrArg (fun d : Relay => d.px.bodyOff) (w.corkUp_relay on)

theorem toRecvHdr_descends (hphase : 2 < w.px.phase.rank) : TurnDescends b w
    ({ w.corkUp false with
      px := { (w.corkUp false).px with bufOff := 0, buf := [], phase := .recvHdr } }, .again b) :=
  clear_descends (w.corkUp_gauge false) rfl hphase (corkUp_bodyOff false)

theorem sendReqNext_descends (hphase : w.px.phase = .sendReq) :
    TurnDescends b w (w.sendReqNext b) := by
  unfold World.sendReqNext
  split
  · refine Descends.of_gauge le_rfl le_rfl (Or.inr (Or.inr (Or.inl ?_))) (le_max_left _ _) rfl rfl
      le_rfl
    rw [hphase]
    exact (by decide : PxPhase.rank .sendBody < PxPhase.rank .sendReq)
  · apply toRecvHdr_descends
    rw [hphase]
    decide

/-- The new connection of `proxy_reopen` uses up the reused one. -/
theorem reopen_descends {u v : World} (hreused : w.px.flags.reused = true)
    (hgauge : v.gauge = u.proxyReopen.2.gauge) (hu : u.gauge = w.gauge)
    (hroom : v.px.buf.length ≤ w.room) (hoff : v.px.bodyOff = w.px.bodyOff) :
    Descends b w b v := by
  have hv : v.gauge = { w.gauge with reused := false } := by
    rw [hgauge, u.proxyReopen_gauge, hu]
  have hlt : v.spare < w.spare := by
    unfold World.spare World.Gauge.spare
    rw [hv, show w.gauge.reused = true from hreused]
    exact Nat.lt_succ_self _
  apply Descends.of_gauge hlt.le le_rfl (Or.inl hlt) hroom
  · exact congrArg World.Gauge.input hv
  · exact congrArg World.Gauge.bodyEnd hv
  · exact hoff.ge

/-- Reopening the upstream socket leaves the request body where it is. -/
theorem proxyReopen_body (w : World) : w.proxyReopen.2.px.bodyOff = w.px.bodyOff ∧
    w.proxyReopen.2.px.buf = w.px.buf := by
  obtain ⟨conns, up, hrel, -, -⟩ := w.proxyReopen_relay
  exact ⟨congrArg (fun d : Relay => d.px.bodyOff) hrel, congrArg (fun d : Relay => d.px.buf) hrel⟩

/-- A turn of `PX_SEND_REQ` sends bytes, leaves the phase, or returns. -/
theorem sendReqTurn_descends (hb : b ≠ 0) (hphase : w.px.phase = .sendReq) :
    TurnDescends b w (w.sendReqTurn now b) := by
  unfold World.sendReqTurn
  split
  · rename_i hoff
    simp only
    split
    · split
      · rename_i hidle
        split
        · refine reopen_descends hidle.1 rfl rfl ?_ (proxyReopen_body _).1
          rw [(proxyReopen_body _).2]
          exact le_max_left _ _
        · trivial
      · trivial
    · trivial
    · rename_i hdone
      have hsame : ∀ v : World, SameLoad w v → v.px.phase = .sendReq := fun v hv =>
        hv.phase.trans hphase
      have hv : SameLoad w ({ w with
          kernel := (w.kernel.send .upstream (w.px.hdr.drop w.px.hdrOff)).2.2
          px := { w.px with hdrOff :=
            w.px.hdrOff + (w.kernel.send .upstream (w.px.hdr.drop w.px.hdrOff)).1 } }.moved now
          (w.kernel.send .upstream (w.px.hdr.drop w.px.hdrOff)).1) := by
        constructor
        case gauge => exact World.moved_gauge _ _ _
        case phase => rw [World.moved_px]
        case buf => rw [World.moved_px]
        case bodyOff => rw [World.moved_px]
      refine (sendReqNext_descends (hsame _ hv)).spent ?_ hv.spare.le hv.room.le hv.body
      exact spend_lt hb (send_ne_zero (drop_ne_nil hoff) hdone)
  · exact sendReqNext_descends hphase

/-- A call that moved bytes. -/
theorem spent_descends {c : Nat} {v : World} (hlt : c < b) (hspare : v.spare ≤ w.spare)
    (hbuf : v.px.buf.length ≤ w.room) (hinput : v.hc.buf = w.hc.buf)
    (hend : v.px.bodyEnd = w.px.bodyEnd) (hoff : w.px.bodyOff ≤ v.px.bodyOff) :
    TurnDescends b w (v, .again c) :=
  Descends.of_gauge hspare hlt.le (Or.inr (Or.inl hlt)) hbuf hinput hend hoff

/-- A turn of `PX_SEND_BODY` sends bytes, leaves the phase, or returns. -/
theorem sendBodyTurn_descends (hb : b ≠ 0) (hbody : w.BodyInBuffer)
    (hphase : w.px.phase = .sendBody) : TurnDescends b w (w.sendBodyTurn now b) := by
  unfold World.sendBodyTurn
  split
  -- The buffer: every byte sent counts against the budget.
  · rename_i hoff
    simp only
    split
    · trivial
    · trivial
    · rename_i hdone
      apply spent_descends (spend_lt hb (send_ne_zero (drop_ne_nil hoff) hdone))
      · simp [World.spare_eq]
      · exact Nat.zero_le _
      · simp
      · simp
      · simp
  split
  · rename_i hoff
    -- The bytes are in the header buffer, so there is something to send.
    have hne : (w.hc.buf.take w.px.bodyEnd).drop w.px.bodyOff ≠ [] := by
      apply drop_ne_nil
      have hend : w.px.bodyEnd ≤ w.hc.buf.length := hbody hoff
      rw [List.length_take]
      omega
    simp only
    split
    · trivial
    · trivial
    · rename_i hdone
      apply spent_descends (spend_lt hb (send_ne_zero hne hdone))
      · simp [World.spare_eq]
      · simp [World.room]
      · simp
      · simp
      · simp
  split
  -- The rest of the body: a read costs one unit of the budget, even where it gets fewer bytes.
  · simp only
    split
    · rename_i bytes hgot
      have hle : bytes.length ≤ min PROXY_BUF_MAX w.px.bodyLeft :=
        readThrough_got (Prod.ext hgot rfl)
      apply spent_descends (by omega : b - 1 < b)
      · simp [World.spare_eq, World.touch]
      · exact (hle.trans (Nat.min_le_left _ _)).trans (le_max_right _ _)
      · rfl
      · rfl
      · exact le_rfl
    · trivial
    · trivial
  -- The body is sent, and the phase goes on.
  · apply toRecvHdr_descends
    rw [hphase]
    decide

/-- A retry gives up the reused socket, so there is at most one. -/
theorem retryOrFail_descends : TurnDescends b w (w.retryOrFail b) := by
  unfold World.retryOrFail World.proxyRetryIdle
  split
  · by_cases hcan : (!w.canRetryIdle) = true
    · rw [if_pos hcan]
      trivial
    rw [if_neg hcan]
    simp only
    by_cases hopen : (!w.proxyReopen.1) = true
    · rw [if_pos hopen]
      trivial
    · rw [if_neg hopen]
      have hreused : w.px.flags.reused = true := by
        unfold World.canRetryIdle at hcan
        simp only [Bool.not_eq_true', Bool.not_eq_false, Bool.and_eq_true] at hcan
        exact hcan.1.1.1
      exact reopen_descends hreused rfl rfl (Nat.zero_le _) (proxyReopen_body _).1
  · trivial

/-- A read before the turn uses up no more than the interruptions it takes. -/
theorem TurnDescends.of_read {r : World × Exit} {room : Nat}
    (h : TurnDescends b { w with kernel := (w.kernel.read .upstream room).2 } r)
    (hint : readInterruptions (readOnce w.kernel.sched.upstreamReads room).2 ≤
      readInterruptions w.kernel.sched.upstreamReads) : TurnDescends b w r := by
  obtain ⟨u, e⟩ := r
  have hspare : World.spare { w with kernel := (w.kernel.read .upstream room).2 } ≤ w.spare := by
    rw [World.spare_eq, World.spare_eq, read_upstreamReads]
    exact Nat.add_le_add_right hint _
  cases e with
  | again d =>
      have hd : Descends b { w with kernel := (w.kernel.read .upstream room).2 } d u := h
      refine ⟨hd.spare.trans hspare, hd.budget, ?_, hd.room, hd.body⟩
      exact hd.used.imp_left fun hlt => hlt.trans_le hspare
  | yield u c => trivial
  | fail => trivial
  | close => trivial
  | done => trivial
  | ret io => trivial

/-- Accounting for body bytes never makes the buffer longer. -/
theorem noteBody_buf_le {px px' : ProxyConn} {n : Nat} (h : noteBody px n = some px') :
    px'.buf.length ≤ px.buf.length := by
  obtain ⟨k, hk⟩ := (noteBody_frame h).buf
  rw [hk]
  exact List.length_take_le' _ _

/-- A 1xx head leaves the buffer, a final one ends the phase. -/
theorem headTurn_descends {i : Nat} (hend : i + 4 ≤ w.px.buf.length)
    (hphase : w.px.phase = .recvHdr) : TurnDescends b w (w.headTurn b i) := by
  unfold World.headTurn
  simp only
  split
  · trivial
  · refine Descends.of_gauge le_rfl le_rfl (Or.inr (Or.inr (Or.inr ⟨rfl, ?_⟩))) ?_ rfl rfl le_rfl
    · show (w.px.buf.drop (i + 4)).length < _
      rw [List.length_drop]
      omega
    · show (w.px.buf.drop (i + 4)).length ≤ _
      rw [List.length_drop]
      exact (Nat.sub_le _ _).trans (le_max_left _ _)
  · rename_i px hfinal
    have hf := rewriteResponse_frame hfinal
    have hreused : px.flags.reused = w.px.flags.reused := by rw [hf.flags]
    have hrank : PxPhase.rank .sendResp < w.px.phase.rank := by
      rw [hphase]
      decide
    split
    · refine Descends.of_gauge ?_ le_rfl (Or.inr (Or.inr (Or.inl hrank))) (Nat.zero_le _) rfl
        hf.bodyEnd hf.bodyOff.ge
      simp [World.spare_eq, hreused]
    split
    · trivial
    · rename_i v hn
      obtain ⟨px₂, hnote, rfl⟩ := Option.map_eq_some_iff.1 hn
      have hnf := noteBody_frame hnote
      have hreused₂ : px₂.flags.reused = px.flags.reused := by rw [hnf.flags]
      refine Descends.of_gauge ?_ le_rfl (Or.inr (Or.inr (Or.inl hrank))) ?_ rfl
        (hnf.bodyEnd.trans hf.bodyEnd) (hnf.bodyOff.trans hf.bodyOff).ge
      · simp [World.spare_eq, hreused₂, hreused]
      · refine (noteBody_buf_le hnote).trans ?_
        show (w.px.buf.drop (i + 4)).length ≤ _
        rw [List.length_drop]
        exact (Nat.sub_le _ _).trans (le_max_left _ _)

/-- A turn of `PX_RECV_HDR` reads bytes, leaves the phase, retries once, or returns. -/
theorem recvHdrTurn_descends (hb : b ≠ 0) (hphase : w.px.phase = .recvHdr) :
    TurnDescends b w (w.recvHdrTurn now b) := by
  unfold World.recvHdrTurn
  split
  · rename_i hi
    exact headTurn_descends (findHdrEnd_lt hi) hphase
  rename_i hnone
  split
  · trivial
  rename_i hcap
  simp only
  have hint := readOnce_interruptions w.kernel.sched.upstreamReads
    (PROXY_BUF_MAX - w.px.buf.length)
  split
  · rename_i hintr
    have hlt := hint.2 hintr
    have hspare : World.spare { w with
        kernel := (w.kernel.read .upstream (PROXY_BUF_MAX - w.px.buf.length)).2 } < w.spare := by
      simp only [World.spare_eq, read_upstreamReads]
      omega
    exact Descends.of_gauge hspare.le le_rfl (Or.inl hspare) (le_max_left _ _) rfl rfl le_rfl
  · exact retryOrFail_descends.of_read hint.1
  · exact retryOrFail_descends.of_read hint.1
  · trivial
  · rename_i bytes hgot
    have hle : bytes.length ≤ PROXY_BUF_MAX - w.px.buf.length := read_got (Prod.ext hgot rfl)
    have hlen : (w.px.buf ++ bytes).length ≤ PROXY_BUF_MAX := by
      rw [List.length_append]
      omega
    have hspare : ∀ v : World, v.px.flags.reused = w.px.flags.reused →
        v.kernel = (w.kernel.read .upstream (PROXY_BUF_MAX - w.px.buf.length)).2 →
        v.spare ≤ w.spare := by
      intro v hr hk
      rw [World.spare_eq, World.spare_eq, hr, hk, read_upstreamReads]
      exact Nat.add_le_add_right hint.1 _
    have hlt : b - 1 < b := by omega
    split
    · rename_i i hi
      apply (headTurn_descends (findHdrEnd_lt hi) hphase).spent hlt
      · exact hspare _ rfl rfl
      · exact max_le (hlen.trans (le_max_right _ _)) (le_max_right _ _)
      · exact fun h => h
    split
    · trivial
    · exact spent_descends hlt (hspare _ rfl rfl) (hlen.trans (le_max_right _ _)) rfl rfl le_rfl

theorem clientDead_descends {v : World} : TurnDescends b w v.clientDead := by
  unfold World.clientDead
  split <;> trivial

/-- Noting what was sent leaves the load as it was. -/
theorem sent_same {t : Nat} (v : World) (n : Nat) : SameLoad v ((v.markSent n).moved t n) := by
  have hmark : SameLoad v (v.markSent n) := by
    unfold World.markSent
    split <;> exact ⟨rfl, rfl, rfl, rfl⟩
  constructor
  case gauge => exact (World.moved_gauge _ t n).trans hmark.gauge
  case phase => exact (congrArg ProxyConn.phase (World.moved_px _ t n)).trans hmark.phase
  case buf => exact (congrArg ProxyConn.buf (World.moved_px _ t n)).trans hmark.buf
  case bodyOff => exact (congrArg ProxyConn.bodyOff (World.moved_px _ t n)).trans hmark.bodyOff

/-- A turn of the gathered send moves bytes or returns. -/
theorem sendGatheredTurn_descends (hb : b ≠ 0) : TurnDescends b w (w.sendGatheredTurn now b) := by
  unfold World.sendGatheredTurn
  simp only
  split
  · trivial
  split
  · exact clientDead_descends
  · trivial
  · rename_i hdone
    have hpos := (sendOnce_pos _ _).1 hdone
    split
    · have hs := sent_same (t := now) { w with
        kernel := (w.kernel.sendmsg .client
          (w.px.hdr.drop w.px.hdrOff ++ w.px.buf.drop w.px.bufOff)).2.2
        px := { w.px with
          hdrOff := w.px.hdrOff + min (w.kernel.sendmsg .client
            (w.px.hdr.drop w.px.hdrOff ++ w.px.buf.drop w.px.bufOff)).1
            (w.px.hdr.drop w.px.hdrOff).length
          bufOff := w.px.bufOff + ((w.kernel.sendmsg .client
            (w.px.hdr.drop w.px.hdrOff ++ w.px.buf.drop w.px.bufOff)).1 -
            (w.px.hdr.drop w.px.hdrOff).length) } }
        (w.kernel.sendmsg .client (w.px.hdr.drop w.px.hdrOff ++ w.px.buf.drop w.px.bufOff)).1
      apply spent_descends (spend_lt hb hpos.ne')
      · refine hs.spare.le.trans (le_of_eq ?_)
        simp [World.spare_eq]
      · rw [hs.buf]
        exact le_max_left _ _
      · exact congrArg World.Gauge.input hs.gauge
      · exact congrArg World.Gauge.bodyEnd hs.gauge
      · exact hs.bodyOff.ge
    · trivial

theorem sendRespNext_descends (hphase : w.px.phase = .sendResp) :
    TurnDescends b w (w.sendRespNext b) := by
  unfold World.sendRespNext
  split
  · trivial
  · refine Descends.of_gauge le_rfl le_rfl (Or.inr (Or.inr (Or.inl ?_))) (le_max_left _ _) rfl rfl
      le_rfl
    rw [hphase]
    exact (by decide : PxPhase.rank .stream < PxPhase.rank .sendResp)

/-- A turn of `PX_SEND_RESP` sends bytes, leaves the phase, or returns. -/
theorem sendRespTurn_descends (hb : b ≠ 0) (hphase : w.px.phase = .sendResp) :
    TurnDescends b w (w.sendRespTurn now b) := by
  unfold World.sendRespTurn
  split
  · exact sendGatheredTurn_descends hb
  simp only
  have hsame : SameLoad w (w.corkClient true) := by
    constructor
    case gauge => exact w.corkClient_gauge true
    case phase => rw [w.corkClient_px true]
    case buf => rw [w.corkClient_px true]
    case bodyOff => rw [w.corkClient_px true]
  refine TurnDescends.of_same ?_ hsame
  have hphase' := hsame.phase.trans hphase
  generalize w.corkClient true = v at hphase'
  split
  · rename_i hoff
    split
    · exact clientDead_descends
    · trivial
    · rename_i hdone
      have hlt := spend_lt hb (send_ne_zero (drop_ne_nil hoff) hdone)
      have hs := sent_same (t := now) { v with
        kernel := (v.kernel.send .client (v.px.hdr.drop v.px.hdrOff)).2.2
        px := { v.px with hdrOff :=
          v.px.hdrOff + (v.kernel.send .client (v.px.hdr.drop v.px.hdrOff)).1 } }
        (v.kernel.send .client (v.px.hdr.drop v.px.hdrOff)).1
      apply (sendRespNext_descends (hs.phase.trans hphase')).spent hlt
      · refine hs.spare.le.trans (le_of_eq ?_)
        simp [World.spare_eq]
      · exact hs.room.le
      · exact hs.body
  · exact sendRespNext_descends hphase'

/-- A turn of `PX_STREAM` moves bytes one way or the other, or returns. -/
theorem streamTurn_descends (hb : b ≠ 0) : TurnDescends b w (w.streamTurn now b) := by
  unfold World.streamTurn
  split
  -- The buffer: every byte sent counts against the budget.
  · rename_i hoff
    simp only
    split
    · trivial
    · trivial
    · rename_i hdone
      have hne := send_ne_zero (drop_ne_nil hoff) hdone
      split
      · trivial
      · have hs := sent_same (t := now) { w with
          kernel := (w.kernel.send .client (w.px.buf.drop w.px.bufOff)).2.2
          px := { w.px with bufOff :=
            w.px.bufOff + (w.kernel.send .client (w.px.buf.drop w.px.bufOff)).1 } }
          (w.kernel.send .client (w.px.buf.drop w.px.bufOff)).1
        apply spent_descends (spend_lt hb hne)
        · refine hs.spare.le.trans (le_of_eq ?_)
          simp [World.spare_eq]
        · exact Nat.zero_le _
        · exact congrArg World.Gauge.input hs.gauge
        · exact congrArg World.Gauge.bodyEnd hs.gauge
        · exact hs.bodyOff.ge
  split
  · trivial
  simp only
  have hcap : (if w.px.flags.respCl ∧ w.px.respLeft < PROXY_BUF_MAX then w.px.respLeft
      else PROXY_BUF_MAX) ≤ PROXY_BUF_MAX := by
    split
    · rename_i h
      exact h.2.le
    · exact le_rfl
  generalize (if w.px.flags.respCl ∧ w.px.respLeft < PROXY_BUF_MAX then w.px.respLeft
    else PROXY_BUF_MAX) = cap at hcap
  -- The size of the read matters only as a bound.
  split
  · trivial
  have hint := readOnce_interruptions w.kernel.sched.upstreamReads cap
  split
  -- An interrupted read uses up one of the interruptions to come.
  · rename_i hintr
    have hlt := hint.2 hintr
    have hspare : World.spare { w with
        kernel := (w.kernel.read .upstream cap).2, px := { w.px with bufOff := 0, buf := [] } } <
        w.spare := by
      simp only [World.spare_eq, read_upstreamReads]
      omega
    exact Descends.of_gauge hspare.le le_rfl (Or.inl hspare) (Nat.zero_le _) rfl rfl le_rfl
  · trivial
  · split <;> trivial
  · trivial
  -- Bytes that were read cost one unit of the budget.
  · rename_i bytes hgot
    have hle : bytes.length ≤ cap := read_got (Prod.ext hgot rfl)
    split
    · trivial
    · rename_i v hn
      obtain ⟨px₂, hnote, rfl⟩ := Option.map_eq_some_iff.1 hn
      have hnf := noteBody_frame hnote
      have hreused : px₂.flags.reused = w.px.flags.reused := by rw [hnf.flags]
      apply spent_descends (by omega : b - 1 < b)
      · simp only [World.spare_eq, World.touch, read_upstreamReads, hreused]
        exact Nat.add_le_add_right hint.1 _
      · exact (noteBody_buf_le hnote).trans ((hle.trans hcap).trans (le_max_right _ _))
      · rfl
      · exact hnf.bodyEnd
      · exact hnf.bodyOff.ge

/-- Whatever the phase, a turn that asks for another one uses something up. -/
theorem phaseTurn_descends (hb : b ≠ 0) (hbody : w.BodyInBuffer) :
    TurnDescends b w (w.phaseTurn now b) := by
  unfold World.phaseTurn
  split
  · rename_i hphase
    exact sendReqTurn_descends hb hphase
  · rename_i hphase
    exact sendBodyTurn_descends hb hbody hphase
  · rename_i hphase
    exact recvHdrTurn_descends hb hphase
  · rename_i hphase
    exact sendRespTurn_descends hb hphase
  · exact streamTurn_descends hb
  · trivial

theorem flush100_same (w : World) : SameLoad w w.flush100.2 := by
  have hg : ∀ n k flags, k.sched.upstreamReads = w.kernel.sched.upstreamReads →
      flags.reused = w.px.flags.reused →
      SameLoad w { w with kernel := k, px := { w.px with contOff := n, flags := flags } } := by
    intro n k flags hk hf
    constructor
    case gauge => simp [World.gauge, hk, hf]
    case phase => rfl
    case buf => rfl
    case bodyOff => rfl
  unfold World.flush100
  split
  · exact ⟨rfl, rfl, rfl, rfl⟩
  simp only
  split
  · exact hg _ _ _ (send_upstreamReads _ _ _) rfl
  · exact hg _ _ _ (send_upstreamReads _ _ _) rfl

theorem budgetExit_descends {v : World} : TurnDescends b w (v, v.budgetExit) := by
  unfold World.budgetExit
  simp only
  repeat' split
  all_goals trivial

/-- A turn that goes round again uses something up. -/
theorem pumpTurn_descends (hbody : w.BodyInBuffer) : TurnDescends b w (w.pumpTurn now b) := by
  have hsame := flush100_same w
  unfold World.pumpTurn
  simp only
  split
  · trivial
  · trivial
  · split
    · exact budgetExit_descends
    · rename_i hb
      exact (phaseTurn_descends hb (hsame.body hbody)).of_same hsame

end Turns

/-! ## The loop -/

section Loop

variable {w : World} {now b : Nat}

/-- The weight of a state whose buffer needs no more than `m` bytes. -/
def weight (m : Nat) (s : Nat × World) : Nat :=
  lexWeight 5 (m + 1) (s.2.spare + s.1) s.2.px.phase.rank s.2.px.buf.length

/-- The measure of `proxyPump_returns`: budget first, then spare retries, then the phase. -/
theorem Descends.weight_lt {m c : Nat} {v : World} (h : Descends b w c v)
    (hroom : v.px.buf.length ≤ m) : weight m (c, v) < weight m (b, w) := by
  have hlow : v.px.buf.length < m + 1 := Nat.lt_succ_of_le hroom
  have hle : v.spare + c ≤ w.spare + b := Nat.add_le_add h.spare h.budget
  rcases hle.lt_or_eq with hlt | heq
  · exact lexWeight_high hlt v.px.phase.rank_lt hlow
  -- Neither the budget nor a spare was used, so the phase or the buffer was.
  have hspare := h.spare
  have hbudget := h.budget
  unfold weight
  simp only [heq]
  rcases h.used with hused | hused | hused | ⟨hrank, hused⟩
  · omega
  · omega
  · exact lexWeight_mid hused hlow
  · rw [hrank]
    exact lexWeight_low hused

/-- The turns `proxy_pump` can still take, with the budget `b`. -/
def turns (b : Nat) (w : World) : Nat := weight w.room (b, w) + 1

/-- Every exit but another turn is a return value. -/
theorem leave_some {e : Exit} (he : ∀ c, e ≠ .again c) : ∃ r, World.leave now w e = some r := by
  cases e with
  | again c => exact absurd rfl (he c)
  | yield u c =>
      unfold World.leave
      simp only
      split <;> exact ⟨_, rfl⟩
  | fail => exact ⟨_, rfl⟩
  | close => exact ⟨_, rfl⟩
  | done => exact ⟨_, rfl⟩
  | ret io => exact ⟨_, rfl⟩

/-- The loop returns within the turns that are left, and then whatever the fuel. -/
theorem pumpLoop_some (now b : Nat) {w : World} (hbody : w.BodyInBuffer) :
    ∃ r, ∀ fuel, turns b w ≤ fuel → World.pumpLoop now fuel b w = some r := by
  have hloop := returns_of_measure (f := fun n (s : Nat × World) => World.pumpLoop now n s.1 s.2)
    (I := fun s => s.2.BodyInBuffer ∧ s.2.px.buf.length ≤ w.room) (m := weight w.room)
    (s := (b, w)) ?_ ⟨hbody, le_max_left _ _⟩
  · exact hloop
  rintro ⟨c, v⟩ ⟨hv, hroom⟩
  have hturn : TurnDescends c v (v.pumpTurn now c) := pumpTurn_descends hv
  cases hr : v.pumpTurn now c with
  | mk u e =>
      rw [hr] at hturn
      cases e with
      | again d =>
          right
          have hd : Descends c v d u := hturn
          have hm : u.px.buf.length ≤ w.room :=
            hd.room.trans (max_le hroom (le_max_right _ _))
          refine ⟨(d, u), ⟨hd.body hv, hm⟩, hd.weight_lt hm, ?_⟩
          intro n
          simp only [World.pumpLoop, hr]
      | yield up cl =>
          left
          obtain ⟨r, hr'⟩ : ∃ r, World.leave now u (.yield up cl) = some r := leave_some (by rintro _ ⟨⟩)
          refine ⟨r, ?_⟩
          intro n
          simp only [World.pumpLoop, hr]
          exact hr'
      | fail => exact Or.inl ⟨_, fun n => by simp only [World.pumpLoop, hr]; rfl⟩
      | close => exact Or.inl ⟨_, fun n => by simp only [World.pumpLoop, hr]; rfl⟩
      | done => exact Or.inl ⟨_, fun n => by simp only [World.pumpLoop, hr]; rfl⟩
      | ret io => exact Or.inl ⟨_, fun n => by simp only [World.pumpLoop, hr]; rfl⟩

/-- The checks before the loop return at once, or the loop does. -/
theorem proxyPump_some (now : Nat) {w : World} (hbody : w.BodyInBuffer) :
    ∃ r, ∀ fuel, turns World.BUDGET w ≤ fuel → w.proxyPump fuel now = some r := by
  unfold World.proxyPump
  cases w.pumpEntry now with
  | some r => exact ⟨r, fun fuel _ => rfl⟩
  | none => exact pumpLoop_some now World.BUDGET hbody

/-- `proxy_pump` returns from any state, whatever the sockets answer: its turns are
bounded by the budget, the interrupted reads and the buffer, and the calls inside a turn
by the bytes they move and their interruptions. `BodyInBuffer` is no restriction: every state
of an exchange in which the upstream socket is open has it (`exchange_bodyInBuffer`). -/
theorem proxyPump_returns (now b : Nat) (w : World) (hbody : w.BodyInBuffer) :
    (∃ r, ∀ fuel, turns b w ≤ fuel → World.pumpLoop now fuel b w = some r) ∧
    (∃ r, ∀ fuel, turns World.BUDGET w ≤ fuel → w.proxyPump fuel now = some r) ∧
    (∀ rs room, rs.length ≤ (readRetry rs room).2.length + readInterruptions rs + 1) ∧
    (∀ rs len, rs.length ≤ (sendOnce rs len).2.2.length + sendInterruptions rs + 1) ∧
    ∀ rs data,
      rs.length ≤ (sendLoop rs data).2.2.length + data.length + sendInterruptions rs + 1 := by
  exact ⟨pumpLoop_some now b hbody, proxyPump_some now hbody, readRetry_calls, sendOnce_calls,
    sendLoop_calls⟩

/-- A POST whose first read of the response is interrupted and gives a 100 head only. -/
def interruptedSlot : World :=
  { readySlot (cstr "POST / HTTP/1.1\r\nHost: a\r\nContent-Length: 2\r\n\r\nab") []
      { Schedule.quiet with
        upstreamSends := [.interrupted, .sent 1, .sent 99]
        upstreamReads := [.interrupted, .data (cstr "HTTP/1.1 100 Continue\r\n\r\n")] } with
    px := { ProxyConn.zero with
      fd := some 5
      phase := .sendBody
      bodyOff := 46
      bodyEnd := 48 } }

theorem proxyPump_returns_interrupted :
    interruptedSlot.BodyInBuffer ∧
      ∃ r, ∀ fuel, turns 3 interruptedSlot ≤ fuel →
        World.pumpLoop 0 fuel 3 interruptedSlot = some r :=
  ⟨by decide, (proxyPump_returns 0 3 interruptedSlot (by decide)).1⟩

end Loop

/-! ## The start of an exchange -/

section Start

variable {w v : World} {now : Nat}

/-- In every run of an exchange the rest of the body in the header buffer stays in it. -/
theorem exchange_bodyInBuffer (hw : Begins w) (addr : List UInt8) (len : Nat)
    (as : List Action) : ∀ x ∈ runStates Exchange.step (beginExchange w addr len now) as,
      x.world.px.fd ≠ none → x.world.BodyInBuffer := by
  intro x hx hfd
  have hbounds : Bounds x.world.relay := by
    rcases trace_of_mem_all hw x hx with hr | ⟨head, d, hstart, ht⟩
    · exact absurd hr.fd hfd
    · cases ht with
      | live hm _ => exact hm.bounds (hstart.bounds hw)
      | «over» d' hm ho => exact ho.bounds
  exact fun _ => hbounds.body_end

end Start

end TinyServer.Proxy
