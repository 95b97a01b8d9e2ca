import TinyServer.Proxy.Upstream

/-!
# How often a request is sent

An exchange has at most two upstream connections. The second replaces a reused idle
socket that failed, and only a GET or HEAD may have had bytes on the first
(`AttemptInv`). What a failure is can be seen in the turn that makes the second
connection (`pumpTurn_nconns`).
-/

set_option autoImplicit false

namespace TinyServer.Proxy

open TinyServer.Http TinyServer.Net TinyServer.Lib

/-! ## The connections of an exchange -/

/-- At most two connections: the second is a new one, in place of a reused one that a
request with side effects put no byte on. -/
inductive Attempts (method : HttpMethod) : List UpstreamConn → Prop
  | none : Attempts method []
  | first (c : UpstreamConn) : Attempts method [c]
  | second (c c₁ : UpstreamConn) (hnew : c.reused = false) (hreused : c₁.reused = true)
      (hsent : c₁.sent = [] ∨ method = .get ∨ method = .head) : Attempts method [c, c₁]

/-- While the slot says that the socket is reused there is one connection. -/
structure AttemptInv (d : Relay) : Prop where
  attempts : Attempts d.req.method d.conns
  reused : d.px.flags.reused = true → ∃ c, d.conns = [c] ∧ c.reused = true
  fresh : d.px.phase = .sendReq → d.px.hdrOff = 0 → ∀ c ∈ d.conns.head?, c.sent = []

section Moves

variable {resend : Prop} {d e : Relay}

/-- The record of the newest connection grows, but stays that of one connection. -/
theorem Attempts.onNewest {method : HttpMethod} {conns : List UpstreamConn}
    {f : UpstreamConn → UpstreamConn} (h : Attempts method conns)
    (hf : ∀ c, (f c).reused = c.reused) : Attempts method (onNewest conns f) := by
  cases h with
  | none => exact .none
  | first c => exact .first (f c)
  | second c c₁ hnew hreused hsent => exact .second (f c) c₁ ((hf c).trans hnew) hreused hsent

theorem onNewest_id (conns : List UpstreamConn) : onNewest conns (fun c => c) = conns := by
  cases conns <;> rfl

/-- A move that leaves the connections alone, but for bytes on the newest. -/
theorem AttemptInv.keep (f : UpstreamConn → UpstreamConn) (hi : AttemptInv d)
    (hreq : e.req = d.req) (hconns : e.conns = Net.onNewest d.conns f)
    (hf : ∀ c, (f c).reused = c.reused)
    (hreused : e.px.flags.reused = d.px.flags.reused)
    (hfresh : e.px.phase = .sendReq → e.px.hdrOff = 0 → ∀ c ∈ e.conns.head?, c.sent = []) :
    AttemptInv e := by
  constructor
  case attempts =>
    rw [hreq, hconns]
    exact hi.attempts.onNewest hf
  case reused =>
    intro hr
    obtain ⟨c, hc, hcr⟩ := hi.reused (hreused.symm.trans hr)
    refine ⟨f c, ?_, (hf c).trans hcr⟩
    rw [hconns, hc, onNewest_cons]
  case fresh => exact hfresh

/-- A move that does not touch the connections. -/
theorem AttemptInv.same (hi : AttemptInv d) (hreq : e.req = d.req) (hconns : e.conns = d.conns)
    (hreused : e.px.flags.reused = d.px.flags.reused)
    (hfresh : e.px.phase = .sendReq → d.px.phase = .sendReq ∧ e.px.hdrOff = d.px.hdrOff) :
    AttemptInv e := by
  apply hi.keep _ hreq (hconns.trans (onNewest_id _).symm) (fun _ => rfl) hreused
  intro hph hoff
  obtain ⟨hph', hoff'⟩ := hfresh hph
  rw [hconns]
  exact hi.fresh hph' (hoff'.symm.trans hoff)

/-- A second connection takes the place of a reused one. -/
theorem AttemptInv.reconnect (fd : Nat) (hi : AttemptInv d) (hreq : e.req = d.req)
    (hconns : e.conns = ⟨fd, false, [], [], false⟩ :: d.conns)
    (hreused : d.px.flags.reused = true) (hnew : e.px.flags.reused = false)
    (hsent : (∀ c ∈ d.conns.head?, c.sent = []) ∨ d.req.method = .get ∨ d.req.method = .head) :
    AttemptInv e := by
  obtain ⟨c, hc, hcr⟩ := hi.reused hreused
  rw [hc] at hconns hsent
  constructor
  case attempts =>
    rw [hreq, hconns]
    apply Attempts.second _ c rfl hcr
    exact hsent.imp_left fun h => h c rfl
  case reused =>
    intro h
    rw [hnew] at h
    cases h
  case fresh =>
    intro _ _ c' hc'
    rw [hconns, List.head?_cons, Option.mem_some_iff] at hc'
    rw [← hc']

/-- A response does not change whether its socket was reused. -/
theorem takeHead_reused {px : ProxyConn} {rest : List UInt8} (hf : HeadFrame d.px px)
    (h : d.takeHead px rest = some e) : e.px.flags.reused = d.px.flags.reused := by
  have hpx : px.flags.reused = d.px.flags.reused := by rw [hf.flags]
  unfold Relay.takeHead at h
  simp only at h
  split at h
  · rw [← Option.some.inj h]
    exact hpx
  · obtain ⟨px₂, hn, rfl⟩ := Option.map_eq_some_iff.1 h
    have hnote : px₂.flags.reused = px.flags.reused := by rw [(noteBody_frame hn).flags]
    exact hnote.trans hpx

/-- The step lemma. -/
theorem AttemptInv.move (hm : Move resend d e) (hi : AttemptInv d) : AttemptInv e := by
  cases hm with
  | sendContinue n h100 => exact hi.same rfl rfl rfl fun h => ⟨h, rfl⟩
  | endContinue h100 hall => exact hi.same rfl rfl rfl fun h => ⟨h, rfl⟩
  | sendHead n hphase hn =>
      refine hi.keep _ rfl rfl (fun _ => rfl) rfl ?_
      -- With the offset still 0 no byte went out.
      intro _ hoff c' hc'
      have hsum : d.px.hdrOff + n = 0 := hoff
      have hold := hi.fresh hphase (by omega)
      have hn0 : n = 0 := by omega
      cases hc : d.conns with
      | nil =>
          have hnil : c' ∈ (onNewest d.conns _).head? := hc'
          rw [hc] at hnil
          cases hnil
      | cons c cs =>
          have hcons : c' ∈ (onNewest d.conns _).head? := hc'
          rw [hc, onNewest_cons, List.head?_cons, Option.mem_some_iff] at hcons
          rw [← hcons, hn0, List.take_zero, List.append_nil]
          exact hold c (by rw [hc]; rfl)
  -- The two moves that open another socket: the pool gave an idle one, and it was stale.
  | reopen fd hphase hreused hoff =>
      exact hi.reconnect fd rfl rfl hreused rfl (Or.inl (hi.fresh hphase hoff))
  | toSendBody hphase hout hbody => exact hi.same rfl rfl rfl nofun
  | headSent hphase hout hbody => exact hi.same rfl rfl rfl nofun
  | bodySent hphase hout hbody => exact hi.same rfl rfl rfl nofun
  | sendShuttle n hphase hn =>
      refine hi.keep _ rfl rfl (fun _ => rfl) rfl ?_
      intro hph
      exact absurd (hphase.symm.trans hph) nofun
  | drained hphase hout => exact hi.same rfl rfl rfl fun h => ⟨h, rfl⟩
  | sendBuffered n hphase hout hn =>
      refine hi.keep _ rfl rfl (fun _ => rfl) rfl ?_
      intro hph
      exact absurd (hphase.symm.trans hph) nofun
  | readBody bytes hphase hout hoff hlen => exact hi.same rfl rfl rfl fun h => ⟨h, rfl⟩
  | readHead bytes hphase hlen =>
      -- From here on the phase is past `PX_SEND_REQ`, and the clause about it is empty.
      refine hi.keep _ rfl rfl (fun _ => rfl) rfl ?_
      intro hph
      exact absurd (hphase.symm.trans hph) nofun
  | upstreamEof hphase =>
      refine hi.keep _ rfl rfl (fun _ => rfl) rfl ?_
      intro hph
      rcases hphase with h | h <;> exact absurd (h.symm.trans hph) nofun
  | retryIdle fd hphase hreused hsent hbuf hmethod hbody =>
      exact hi.reconnect fd rfl rfl hreused rfl (Or.inr hmethod)
  | skipHead i hphase hend hskip => exact hi.same rfl rfl rfl fun h => ⟨h, rfl⟩
  | finalHead _ i px hphase hend hfinal htake =>
      have hframe := rewriteResponse_frame hfinal
      obtain ⟨hsame, hconns, hph⟩ := takeHead_same hframe htake
      -- The head that is taken changes neither the request nor the connections.
      apply hi.same hsame.req hconns (takeHead_reused hframe htake)
      intro h
      exact absurd (hph.symm.trans h) nofun
  | sendGathered n hphase h100 hdone hpos hn =>
      exact hi.same rfl rfl rfl fun h => absurd (hphase.symm.trans h) nofun
  | sendRespHead n hphase h100 hn =>
      exact hi.same rfl rfl rfl fun h => absurd (hphase.symm.trans h) nofun
  | toStream hphase hout => exact hi.same rfl rfl rfl nofun
  | sendStream n hphase h100 hn => exact hi.same rfl rfl rfl fun h => absurd (hphase.symm.trans h) nofun
  | endOfLength hphase hout hcl hleft => exact hi.same rfl rfl rfl fun h => ⟨h, rfl⟩
  -- `note_body` counts bytes and touches no flag of the attempt.
  | readStream bytes px hphase hout hdone hlen hnote =>
      have hnf := noteBody_frame hnote
      have hreused : px.flags.reused = d.px.flags.reused := by rw [hnf.flags]
      refine hi.keep _ rfl rfl (fun _ => rfl) hreused ?_
      intro hph
      exact absurd ((hnf.phase.trans hphase).symm.trans hph) nofun

theorem AttemptInv.moves (hm : Moves resend d e) (hi : AttemptInv d) : AttemptInv e := by
  induction hm with
  | refl => exact hi
  | tail _ hm ih => exact ih.move hm

/-- An exchange starts with one connection. -/
theorem Starts.attemptInv {w : World} {head : List UInt8} (hs : Starts w head d) :
    AttemptInv d := by
  obtain ⟨fd, r, hconns⟩ := hs.conns
  have htied := hs.reused
  rw [hconns] at htied
  constructor
  case attempts =>
    rw [hconns]
    exact .first _
  case reused =>
    intro hr
    exact ⟨_, hconns, (htied _ (List.mem_singleton_self _)).trans hr⟩
  case fresh =>
    intro _ _ c hc
    rw [hconns, List.head?_cons, Option.mem_some_iff] at hc
    rw [← hc]

/-- The end of an exchange may have added a last connection, on which nothing was sent. -/
theorem AttemptInv.left {left : List UpstreamConn} (hi : AttemptInv d) (h : ConnsLeft d left) :
    Attempts d.req.method left := by
  rcases h with rfl | ⟨⟨hreused, hwhen⟩, fd, rfl⟩ | ⟨bytes, rfl⟩
  · exact hi.attempts
  · obtain ⟨c, hc, hcr⟩ := hi.reused hreused
    rw [hc]
    apply Attempts.second _ c rfl hcr
    rcases hwhen with ⟨hphase, hoff⟩ | ⟨-, hmethod⟩
    · exact Or.inl (hi.fresh hphase hoff c (by rw [hc]; rfl))
    · exact Or.inr hmethod
  · exact hi.attempts.onNewest fun _ => rfl

end Moves

/-! ## When the second connection is made -/

section Turns

variable {w : World} {now b : Nat}

/-- The upstream socket fails in the turn to come: nothing of the head can be sent on
it, or reading the response brings its end or an error. -/
def World.UpstreamFails (w : World) : Prop :=
  (w.px.phase = .sendReq ∧
      (w.kernel.send .upstream (w.px.hdr.drop w.px.hdrOff)).1 = 0 ∧
      (w.kernel.send .upstream (w.px.hdr.drop w.px.hdrOff)).2.1 = .dead) ∨
    (w.px.phase = .recvHdr ∧
      ((w.kernel.read .upstream (PROXY_BUF_MAX - w.px.buf.length)).1 = .eof ∨
        (w.kernel.read .upstream (PROXY_BUF_MAX - w.px.buf.length)).1 = .error))

/-- The number of upstream connections of the exchange. -/
def World.attempts (w : World) : Nat := w.kernel.wire.conns.length

/-- What a change of the newest connection leaves: how many there are, and the older ones. -/
def settled (conns : List UpstreamConn) : Nat × List UpstreamConn := (conns.length, conns.tail)

/-- The settled part of the record of a slot's connections. -/
def World.settled (w : World) : Nat × List UpstreamConn := Proxy.settled w.kernel.wire.conns

/-- The settled part of the record counts the connections. -/
theorem attempts_of_settled {v : World} (h : v.settled = w.settled) : v.attempts = w.attempts :=
  congrArg Prod.fst h

/-- What is done to the newest connection leaves the settled part alone. -/
theorem onNewest_settled (conns : List UpstreamConn) (f : UpstreamConn → UpstreamConn) :
    settled (onNewest conns f) = settled conns := by
  cases conns <;> rfl

theorem recordSend_settled (k : Kernel) (e : End) (bytes : List UInt8) :
    settled (k.recordSend e bytes).wire.conns = settled k.wire.conns := by
  cases e with
  | client => rfl
  | upstream => exact onNewest_settled _ _

theorem recordRead_settled (k : Kernel) (e : End) (r : ReadOutcome) :
    settled (k.recordRead e r).wire.conns = settled k.wire.conns := by
  cases e with
  | client => cases r <;> rfl
  | upstream =>
      cases r with
      | got bytes => exact onNewest_settled _ _
      | eof => exact onNewest_settled _ _
      | interrupted => rfl
      | wouldBlock => rfl
      | error => rfl

@[simp] theorem send_settled (k : Kernel) (e : End) (data : List UInt8) :
    settled (k.send e data).2.2.wire.conns = settled k.wire.conns := by
  refine (recordSend_settled _ _ _).trans ?_
  cases e <;> rfl

@[simp] theorem sendmsg_settled (k : Kernel) (e : End) (data : List UInt8) :
    settled (k.sendmsg e data).2.2.wire.conns = settled k.wire.conns := by
  refine (recordSend_settled _ _ _).trans ?_
  cases e <;> rfl

@[simp] theorem read_settled (k : Kernel) (e : End) (room : Nat) :
    settled (k.read e room).2.wire.conns = settled k.wire.conns := by
  refine (recordRead_settled _ _ _).trans ?_
  cases e <;> rfl

@[simp] theorem readThrough_settled (k : Kernel) (e : End) (room : Nat) :
    settled (k.readThrough e room).2.wire.conns = settled k.wire.conns := by
  refine (recordRead_settled _ _ _).trans ?_
  cases e <;> rfl

theorem settled_of_relay {v : World} (h : v.relay = w.relay) : v.settled = w.settled :=
  congrArg (fun d : Relay => settled d.conns) h

@[simp] theorem touch_settled : (w.touch now).settled = w.settled := rfl

@[simp] theorem moved_settled (n : Nat) : (w.moved now n).settled = w.settled :=
  settled_of_relay (w.moved_relay now n)

@[simp] theorem corkUp_settled (on : Bool) : (w.corkUp on).settled = w.settled :=
  settled_of_relay (w.corkUp_relay on)

@[simp] theorem corkClient_settled (on : Bool) : (w.corkClient on).settled = w.settled :=
  settled_of_relay (w.corkClient_relay on)

@[simp] theorem markSent_settled (n : Nat) : (w.markSent n).settled = w.settled :=
  congrArg (fun d : Relay => settled d.conns) (markSent_relay w n)

theorem noteBody_settled {v : World} {n : Nat} (h : w.noteBody n = some v) :
    v.settled = w.settled := by
  obtain ⟨px, -, rfl⟩ := Option.map_eq_some_iff.1 h
  rfl

/-- A new connection, on the next socket, follows those that were there, on which nothing
more was received. -/
def Replaces (w v : World) : Prop :=
  ∃ fd cs, w.kernel.sched.sockets.headD none = some fd ∧
    v.kernel.wire.conns = ⟨fd, false, [], [], false⟩ :: cs ∧
    cs.map (·.received) = w.kernel.wire.conns.map (·.received)

/-- A turn makes no new connection, unless a reused upstream socket fails in it. -/
def Attempted (w : World) (r : World × Exit) : Prop :=
  r.1.settled = w.settled ∨
    (w.UpstreamFails ∧ w.px.flags.reused = true ∧
      (w.px.phase = .recvHdr → w.canRetryIdle = true) ∧ Replaces w r.1)

theorem map_received_onNewest {conns : List UpstreamConn} {f : UpstreamConn → UpstreamConn}
    (hf : ∀ c, (f c).received = c.received) :
    (onNewest conns f).map (·.received) = conns.map (·.received) := by
  cases conns with
  | nil => rfl
  | cons c cs =>
      rw [onNewest_cons, List.map_cons, List.map_cons, hf]

theorem detach_sockets (fd : Nat) :
    (w.detach fd).kernel.sched.sockets = w.kernel.sched.sockets ∧
      (w.detach fd).kernel.wire.conns = w.kernel.wire.conns := by
  unfold World.detach
  simp only
  split <;> split <;> exact ⟨rfl, rfl⟩

theorem dropUpstream_sockets :
    w.dropUpstream.kernel.sched.sockets = w.kernel.sched.sockets ∧
      w.dropUpstream.kernel.wire.conns = w.kernel.wire.conns := by
  unfold World.dropUpstream
  split
  · exact ⟨rfl, rfl⟩
  · exact detach_sockets _

/-- `proxy_reopen` makes a connection if it gets a socket. -/
theorem proxyReopen_conns (w : World) : w.proxyReopen.2.kernel.wire.conns =
    match w.kernel.sched.sockets.headD none with
    | none => w.kernel.wire.conns
    | some fd => ⟨fd, false, [], [], false⟩ :: w.kernel.wire.conns := by
  obtain ⟨hsock, hconns⟩ := dropUpstream_sockets (w := w)
  unfold World.proxyReopen Kernel.socket
  simp only [hsock]
  cases w.kernel.sched.sockets.headD none with
  | none => exact hconns
  | some fd =>
      have hbody : ∀ v : World, (if v.hasBody = true then v.corkUp true else v).kernel.wire.conns =
          v.kernel.wire.conns := by
        intro v
        split
        · exact congrArg Relay.conns (v.corkUp_relay true)
        · rfl
      refine (hbody _).trans ?_
      exact congrArg (_ :: ·) hconns

/-- A connection in place of the one of `u`, which received what that of `w` had. -/
theorem reopen_attempted {u : World} {r : World × Exit}
    (hr : r.1.kernel.wire.conns = u.proxyReopen.2.kernel.wire.conns)
    (hsock : u.kernel.sched.sockets = w.kernel.sched.sockets) (hfails : w.UpstreamFails)
    (hreused : w.px.flags.reused = true)
    (hretry : w.px.phase = .recvHdr → w.canRetryIdle = true) (hset : u.settled = w.settled)
    (hrec : u.kernel.wire.conns.map (·.received) = w.kernel.wire.conns.map (·.received)) :
    Attempted w r := by
  have hconns := proxyReopen_conns u
  rw [hsock] at hconns
  cases hfd : w.kernel.sched.sockets.headD none with
  | none =>
      left
      rw [hfd] at hconns
      have hu : r.1.settled = u.settled := congrArg settled (hr.trans hconns)
      exact hu.trans hset
  | some fd =>
      rw [hfd] at hconns
      exact Or.inr ⟨hfails, hreused, hretry, fd, _, hfd, hr.trans hconns, hrec⟩

theorem read_sockets (k : Kernel) (room : Nat) :
    (k.read .upstream room).2.sched.sockets = k.sched.sockets := by
  unfold Kernel.read
  rw [Kernel.recordRead_sched]
  rfl

/-- A read that fails receives nothing. -/
theorem read_failed_received (k : Kernel) (room : Nat)
    (h : (k.read .upstream room).1 = .eof ∨ (k.read .upstream room).1 = .error) :
    (k.read .upstream room).2.wire.conns.map (·.received) = k.wire.conns.map (·.received) := by
  unfold Kernel.read at h ⊢
  simp only at h ⊢
  generalize (readOnce (k.reads .upstream) room).1 = r at h
  rcases h with rfl | rfl
  · exact map_received_onNewest fun _ => rfl
  · rfl

/-- The request goes out again after a read of an answer that brought nothing. -/
theorem retryOrFail_attempted {u : World} (hpx : u.px = w.px) (hhc : u.hc = w.hc)
    (hsock : u.kernel.sched.sockets = w.kernel.sched.sockets) (hfails : w.UpstreamFails)
    (hset : u.settled = w.settled)
    (hrec : u.kernel.wire.conns.map (·.received) = w.kernel.wire.conns.map (·.received)) :
    Attempted w (u.retryOrFail b) := by
  have hsame : u.canRetryIdle = w.canRetryIdle := by
    unfold World.canRetryIdle
    rw [hpx, hhc]
  unfold World.retryOrFail World.proxyRetryIdle
  split
  · by_cases hcan : (!u.canRetryIdle) = true
    · rw [if_pos hcan]
      exact Or.inl hset
    rw [if_neg hcan]
    have hretry : w.canRetryIdle = true := by
      rw [← hsame]
      simpa using hcan
    have hreused : w.px.flags.reused = true := by
      unfold World.canRetryIdle at hretry
      simp only [Bool.and_eq_true] at hretry
      exact hretry.1.1.1
    simp only
    split
    · exact reopen_attempted (u := u) (by split <;> rfl) hsock hfails hreused (fun _ => hretry) hset hrec
    · exact reopen_attempted (u := u) (by split <;> rfl) hsock hfails hreused (fun _ => hretry) hset hrec
  · exact Or.inl hset

theorem sendReqNext_settled : (w.sendReqNext b).1.settled = w.settled := by
  unfold World.sendReqNext
  split
  · rfl
  · exact corkUp_settled false

/-- `PX_SEND_REQ` opens a new connection only for a reused socket that failed at once. -/
theorem sendReqTurn_settled (hphase : w.px.phase = .sendReq) :
    Attempted w (w.sendReqTurn now b) := by
  unfold World.sendReqTurn
  split
  · simp only
    have hlen := send_settled w.kernel .upstream (w.px.hdr.drop w.px.hdrOff)
    split
    · rename_i hdead
      split
      · rename_i hoff
        -- Nothing went out, as the offset is still 0.
        have hzero : w.px.hdrOff + (w.kernel.send .upstream (w.px.hdr.drop w.px.hdrOff)).1 = 0 :=
          hoff.2
        have hfails : w.UpstreamFails := Or.inl ⟨hphase, by omega, hdead⟩
        have hnot : w.px.phase = .recvHdr → w.canRetryIdle = true := fun h =>
          absurd (hphase.symm.trans h) nofun
        split
        · exact reopen_attempted rfl rfl hfails hoff.1 hnot hlen (map_received_onNewest fun _ => rfl)
        · exact reopen_attempted rfl rfl hfails hoff.1 hnot hlen (map_received_onNewest fun _ => rfl)
      · exact Or.inl hlen
    · refine Or.inl ?_
      rw [moved_settled]
      exact hlen
    · refine Or.inl ?_
      rw [sendReqNext_settled, moved_settled]
      exact hlen
  · exact Or.inl sendReqNext_settled

/-- `PX_SEND_BODY` opens no connection. -/
theorem sendBodyTurn_settled : (w.sendBodyTurn now b).1.settled = w.settled := by
  unfold World.sendBodyTurn
  split
  · simp only
    have hlen := send_settled w.kernel .upstream (w.px.buf.drop w.px.bufOff)
    split
    · exact hlen
    · rw [moved_settled]
      exact hlen
    · exact (moved_settled _).trans hlen
  split
  · simp only
    have hlen := send_settled w.kernel .upstream ((w.hc.buf.take w.px.bodyEnd).drop w.px.bodyOff)
    split
    · exact hlen
    · rw [moved_settled]
      exact hlen
    · rw [moved_settled]
      exact hlen
  split
  · simp only
    have hlen := readThrough_settled w.kernel .client (min PROXY_BUF_MAX w.px.bodyLeft)
    split <;> exact hlen
  · exact corkUp_settled false

theorem headTurn_settled (at' : Nat) : (w.headTurn b at').1.settled = w.settled := by
  unfold World.headTurn
  simp only
  split
  · rfl
  · rfl
  · split
    · rfl
    split
    · rfl
    · rename_i v hn
      exact (noteBody_settled hn : v.settled = _)

/-- `PX_RECV_HDR` opens a new connection only where the upstream failed. -/
theorem recvHdrTurn_settled (hphase : w.px.phase = .recvHdr) :
    Attempted w (w.recvHdrTurn now b) := by
  unfold World.recvHdrTurn
  split
  · exact Or.inl (headTurn_settled _)
  split
  · exact Or.inl rfl
  simp only
  have hlen := read_settled w.kernel .upstream (PROXY_BUF_MAX - w.px.buf.length)
  split
  · exact Or.inl hlen
  · rename_i herr
    exact retryOrFail_attempted rfl rfl (read_sockets _ _) (Or.inr ⟨hphase, Or.inr herr⟩) hlen
      (read_failed_received _ _ (Or.inr herr))
  · rename_i heof
    exact retryOrFail_attempted rfl rfl (read_sockets _ _) (Or.inr ⟨hphase, Or.inl heof⟩) hlen
      (read_failed_received _ _ (Or.inl heof))
  · exact Or.inl hlen
  · split
    · refine Or.inl ?_
      rw [headTurn_settled, touch_settled]
      exact hlen
    split
    · exact Or.inl hlen
    · exact Or.inl hlen

theorem clientDead_settled : w.clientDead.1.settled = w.settled := by
  unfold World.clientDead
  split <;> rfl

theorem sendRespNext_settled : (w.sendRespNext b).1.settled = w.settled := by
  unfold World.sendRespNext
  split <;> rfl

theorem sendGatheredTurn_settled : (w.sendGatheredTurn now b).1.settled = w.settled := by
  unfold World.sendGatheredTurn
  simp only
  split
  · rfl
  have hlen := sendmsg_settled w.kernel .client
    (w.px.hdr.drop w.px.hdrOff ++ w.px.buf.drop w.px.bufOff)
  split
  · rw [clientDead_settled]
    exact hlen
  · exact hlen
  · split
    · rw [moved_settled, markSent_settled]
      exact hlen
    · rw [moved_settled, markSent_settled]
      exact hlen

/-- `PX_SEND_RESP` opens no connection. -/
theorem sendRespTurn_settled : (w.sendRespTurn now b).1.settled = w.settled := by
  unfold World.sendRespTurn
  split
  · exact sendGatheredTurn_settled
  simp only
  have hcork := corkClient_settled (w := w) true
  split
  · have hlen := send_settled (w.corkClient true).kernel .client
      ((w.corkClient true).px.hdr.drop (w.corkClient true).px.hdrOff)
    split
    · rw [clientDead_settled, markSent_settled]
      exact hlen.trans hcork
    · rw [moved_settled, markSent_settled]
      exact hlen.trans hcork
    · rw [sendRespNext_settled, moved_settled, markSent_settled]
      exact hlen.trans hcork
  · rw [sendRespNext_settled]
    exact hcork

/-- `PX_STREAM` opens no connection. -/
theorem streamTurn_settled : (w.streamTurn now b).1.settled = w.settled := by
  unfold World.streamTurn
  split
  · simp only
    have hlen := send_settled w.kernel .client (w.px.buf.drop w.px.bufOff)
    split
    · exact hlen
    · rw [moved_settled, markSent_settled]
      exact hlen
    · split
      · exact ((moved_settled _).trans (markSent_settled _)).trans hlen
      · exact ((moved_settled _).trans (markSent_settled _)).trans hlen
  split
  · rfl
  simp only
  generalize (if w.px.flags.respCl = true ∧ w.px.respLeft < PROXY_BUF_MAX then w.px.respLeft
    else PROXY_BUF_MAX) = cap
  split
  · rfl
  have hlen := read_settled w.kernel .upstream cap
  split
  · exact hlen
  · exact hlen
  · split <;> exact hlen
  · exact hlen
  · split
    · exact hlen
    · rename_i hn
      rw [touch_settled, noteBody_settled hn]
      exact hlen

/-- A turn opens a new connection only where the upstream failed. -/
theorem phaseTurn_settled : Attempted w (w.phaseTurn now b) := by
  unfold World.phaseTurn
  cases hphase : w.px.phase with
  | none => exact Or.inl rfl
  | sendReq => exact sendReqTurn_settled hphase
  | sendBody => exact Or.inl sendBodyTurn_settled
  | recvHdr => exact recvHdrTurn_settled hphase
  | sendResp => exact Or.inl sendRespTurn_settled
  | stream => exact Or.inl streamTurn_settled

theorem flush100_settled : w.flush100.2.settled = w.settled := by
  unfold World.flush100
  split
  · rfl
  simp only
  have hlen := send_settled w.kernel .client (CONT_100.drop w.px.contOff)
  split <;> exact hlen

theorem flush100_conns : w.flush100.2.kernel.wire.conns = w.kernel.wire.conns ∧
    w.flush100.2.kernel.sched.sockets = w.kernel.sched.sockets := by
  unfold World.flush100
  split
  · exact ⟨rfl, rfl⟩
  simp only
  split <;> exact ⟨rfl, rfl⟩

/-- The turn makes a second connection only where the upstream socket fails. -/
theorem pumpTurn_settled : (w.pumpTurn now b).1.settled = w.settled ∨
    (w.flush100.2.UpstreamFails ∧ w.flush100.2.px.flags.reused = true ∧
      (w.flush100.2.px.phase = .recvHdr →
        b ≠ 0 ∧ w.flush100.1 = .done ∧ w.flush100.2.canRetryIdle = true) ∧
      Replaces w (w.pumpTurn now b).1) := by
  have hflush := flush100_settled (w := w)
  unfold World.pumpTurn
  simp only
  split
  · exact Or.inl hflush
  · exact Or.inl hflush
  rename_i hdone
  split
  · exact Or.inl hflush
  · rename_i hb
    have hphase : Attempted w.flush100.2 (w.flush100.2.phaseTurn now b) := phaseTurn_settled
    rcases hphase with h | ⟨hf, hr, hc, hn⟩
    · exact Or.inl (h.trans hflush)
    · refine Or.inr ⟨hf, hr, fun hphase => ⟨hb, hdone, hc hphase⟩, ?_⟩
      unfold Replaces at hn ⊢
      rw [flush100_conns.1, flush100_conns.2] at hn
      exact hn

/-- A turn that opens one more connection met an upstream that failed. -/
theorem pumpTurn_attempts :
    (w.pumpTurn now b).1.attempts ≤ w.attempts ∨ w.flush100.2.UpstreamFails :=
  pumpTurn_settled.imp (fun h => (attempts_of_settled h).le) And.left

/-- Leaving the loop makes no connection. -/
theorem leave_conns {v : World} {io : HttpIo} {e : Exit} (h : w.leave now e = some (io, v)) :
    v.kernel.wire.conns = w.kernel.wire.conns := by
  cases e with
  | again c => cases h
  | yield u c =>
      obtain ⟨hrel, -⟩ := yieldUp_relay w u c
      have hy : (w.yieldUp u c).2.kernel.wire.conns = w.kernel.wire.conns :=
        congrArg Relay.conns hrel
      unfold World.leave at h
      simp only at h
      split at h
      · rw [← (Prod.mk.inj (Option.some.inj h)).2, ← hy]
        exact (proxyFail_released _ now).1.conns
      · rw [← (Prod.mk.inj (Option.some.inj h)).2]
        exact hy
  | fail =>
      have hv : w.proxyFail now = (io, v) := Option.some.inj h
      have hr := (proxyFail_released w now).1.conns
      rw [hv] at hr
      exact hr
  | close =>
      rw [← (Prod.mk.inj (Option.some.inj h)).2]
      exact (proxyClose_released w).1.conns
  | done =>
      have hv : w.proxyDone = (io, v) := Option.some.inj h
      have hr := (proxyDone_released w).1.conns
      rw [hv] at hr
      exact hr
  | ret io' =>
      rw [← (Prod.mk.inj (Option.some.inj h)).2]

theorem enter_conns : (enter now w).world.kernel.wire.conns = w.kernel.wire.conns := by
  unfold enter World.pumpEntry
  by_cases hfd : w.px.fd = none
  · rw [if_pos hfd]
  rw [if_neg hfd]
  by_cases hd : w.hc.deadlineMs ≤ now
  · rw [if_pos hd]
    exact (proxyClose_released w).1.conns
  · rw [if_neg hd]

end Turns

/-! ## Runs -/

/-- The upstream socket fails in the step. -/
def Exchange.UpstreamFails (x : Exchange) : Action → Prop
  | .turn => x.world.flush100.2.UpstreamFails
  | _ => False

/-- A step that adds an upstream connection is one in which the socket before it failed. -/
def Exchange.ReplacesFailed (x : Exchange) (a : Action) : Prop :=
  ∀ y, x.step a = some y → x.world.attempts < y.world.attempts → x.UpstreamFails a

/-- In every step of a run. -/
theorem replacesFailed (x : Exchange) (a : Action) : x.ReplacesFailed a := by
  intro y h hlt
  cases a with
  | turn =>
      rw [Exchange.step] at h
      split at h
      · rename_i now b hs
        unfold Exchange.turn at h
        have hturn : (x.world.pumpTurn now b).1.attempts ≤ x.world.attempts ∨
            x.world.flush100.2.UpstreamFails := pumpTurn_attempts
        rcases hturn with hle | hfail
        · rcases hr : x.world.pumpTurn now b with ⟨v, e⟩
          rw [hr] at h hle
          have hv : v.attempts ≤ x.world.attempts := hle
          exfalso
          split at h
          · rename_i heq
            cases heq
            rw [← Option.some.inj h] at hlt
            exact absurd hlt (Nat.not_lt.2 hv)
          · rename_i heq
            cases heq
            obtain ⟨r, hleave, rfl⟩ := Option.map_eq_some_iff.1 h
            have hr : r.2.attempts = v.attempts := congrArg List.length (leave_conns hleave)
            exact absurd hlt (Nat.not_lt.2 (hr.le.trans hv))
        · exact hfail
      · cases h
  | pump now sched =>
      rw [Exchange.step] at h
      split at h
      · cases h
      · have henter : (enter now (x.world.withSched sched)).world.attempts = x.world.attempts :=
          congrArg List.length enter_conns
        rw [← Option.some.inj h, henter] at hlt
        exact absurd hlt (lt_irrefl _)
  | write now sched =>
      rw [Exchange.step] at h
      split at h
      · obtain ⟨-, -, -, -, -, -, hcs⟩ := write_frame x now sched
        rw [← Option.some.inj h] at hlt
        unfold World.attempts at hlt
        rw [hcs] at hlt
        exact absurd hlt (lt_irrefl _)
      · cases h

/-- At most two upstream connections, at most one of them with bytes of a POST; the second
is a new one, and the first was a reused idle socket. -/
structure AttemptsOk (w : World) (x : Exchange) : Prop where
  two : x.world.kernel.wire.conns.length ≤ 2
  post : w.hc.req.method = .post → (x.world.kernel.wire.conns.filter (·.sent ≠ [])).length ≤ 1
  second : ∀ c₁ c₂, x.world.kernel.wire.conns = [c₂, c₁] → c₁.reused = true ∧ c₂.reused = false

/-- What the record says of the attempts, in the words of the property. -/
theorem Attempts.ok {w : World} {x : Exchange}
    (h : Attempts w.hc.req.method x.world.kernel.wire.conns) : AttemptsOk w x := by
  generalize hconns : x.world.kernel.wire.conns = conns at h
  constructor
  case two =>
    rw [hconns]
    cases h <;> simp
  case post =>
    intro hpost
    rw [hconns]
    cases h with
    | none => exact Nat.zero_le _
    | first c => exact List.length_filter_le _ [c]
    | second c c₁ hnew hreused hsent =>
        have hnil : c₁.sent = [] := by
          rcases hsent with h | h | h
          · exact h
          · rw [hpost] at h
            cases h
          · rw [hpost] at h
            cases h
        have hfilter : [c, c₁].filter (·.sent ≠ []) = [c].filter (·.sent ≠ []) := by
          simp [List.filter_cons, hnil]
        rw [hfilter]
        exact List.length_filter_le _ [c]
  case second =>
    intro c₁ c₂ heq
    rw [hconns] at heq
    cases h with
    | none => cases heq
    | first c => cases heq
    | second c c₁ hnew hreused hsent =>
        cases heq
        exact ⟨hreused, hnew⟩

/-- How often a request is sent, in every run: the second connection comes only after the
first, a reused idle socket, failed. -/
theorem request_attempts {w : World} (hw : Begins w) (addr : List UInt8) (len now : Nat)
    (as : List Action) :
    (∀ x ∈ runStates Exchange.step (beginExchange w addr len now) as, AttemptsOk w x) ∧
      AllSteps Exchange.step Exchange.ReplacesFailed (beginExchange w addr len now) as := by
  refine ⟨fun x hx => ?_, AllSteps.of_forall replacesFailed as _⟩
  apply Attempts.ok
  rcases trace_of_mem_all hw x hx with hr | ⟨head, d₀, hs, ht⟩
  · rw [hr.conns]
    exact .none
  · have hmethod : ∀ d, Moves True d₀ d → d.req.method = w.hc.req.method := by
      intro d hm
      rw [hm.frame.req, hs.req]
    cases ht with
    | live hm _ =>
        rw [← hmethod _ hm]
        exact (hs.attemptInv.moves hm).attempts
    | «over» d hm ho =>
        rw [← hmethod _ hm]
        exact (hs.attemptInv.moves hm).left ho.conns

/-- A GET on an idle socket that the upstream has closed: it is sent again. -/
theorem request_attempts_get :
    (∀ x ∈ runStates Exchange.step (beginExchange closedIdleSlot [1] 1 0) (List.replicate 5 .turn),
      AttemptsOk closedIdleSlot x) ∧
      AllSteps Exchange.step Exchange.ReplacesFailed (beginExchange closedIdleSlot [1] 1 0)
        (List.replicate 5 .turn) :=
  request_attempts (readySlot_begins (by decide)) [1] 1 0 (List.replicate 5 .turn)

end TinyServer.Proxy
