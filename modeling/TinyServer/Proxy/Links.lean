import TinyServer.Net.Descriptors
import TinyServer.Proxy.Relay

/-!
# Which sockets the proxy has

A slot has at most one upstream socket, and the worker keeps idle ones in its pool.
`LinkOpens` lists how an exchange gets its socket, `LinkMove` what can happen to it then,
with the control calls that are made: it is connected, registered with epoll, replaced by
a new one, closed or parked. Every function from `proxy_pump` to `proxy_close` makes only
such moves (`Linked`), and `proxy_begin` opens the link before (`proxyBegin_linked`).
-/

set_option autoImplicit false

namespace TinyServer.Proxy

open TinyServer.Http TinyServer.Net

/-! ## Moves -/

/-- The upstream socket of a slot with its address and what the slot knows of its
registration, the socket that the newest connection of the wire stands for, and the idle
pool. `linked` says that `connect` did not fail on the upstream socket. -/
structure Link where
  fd : Option Nat
  addr : List UInt8
  len : Nat
  inEpoll : Bool
  armed : HttpIo
  newest : Option Nat
  pool : List ProxyIdle
  linked : Bool

/-- `connect` on `fd`. -/
def IsConnect (c : ControlCall) : Prop := ∃ fd addr r, c = .connect fd addr r

/-- `epoll_ctl` on `fd`. -/
def IsEpoll (c : ControlCall) : Prop := ∃ fd op ok, c = .epollCtl fd op ok

/-- The events of the upstream socket that `arm_up` asks for. -/
def upInterest (io : HttpIo) : Interest := ⟨io = .wantRead, io = .wantWrite⟩

/-- The `epoll_ctl` of `arm_up`. -/
def Link.armOp (l : Link) (io : HttpIo) : EpollOp :=
  if l.inEpoll then .mod (upInterest io) else .add (upInterest io)

/-- What can happen to the socket of an exchange. -/
inductive LinkMove : Link → List ControlCall → Link → Prop
  | quiet (l : Link) (c : ControlCall) (hc : c.Quiet) (hconn : ¬ IsConnect c)
      (hepoll : ¬ IsEpoll c) : LinkMove l [c] l
  | arm (l : Link) (fd : Nat) (io : HttpIo) (hfd : l.fd = some fd) :
      LinkMove l [.epollCtl fd (l.armOp io) true] { l with inEpoll := true, armed := io }
  | armFail (l : Link) (fd : Nat) (io : HttpIo) (hfd : l.fd = some fd) :
      LinkMove l [.epollCtl fd (l.armOp io) false] l
  | unplug (l : Link) (fd : Nat) (ok : Bool) (hfd : l.fd = some fd) (hin : l.inEpoll = true) :
      LinkMove l [.epollCtl fd .del ok] { l with inEpoll := false }
  | rename (l : Link) (addr : List UInt8) (len : Nat) (armed : HttpIo) (linked : Bool)
      (hfd : l.fd = none) :
      LinkMove l [] { l with addr := addr, len := len, armed := armed, linked := linked }
  | connect (l : Link) (fd : Nat) (r : ConnectResult) (hfd : l.fd = some fd) :
      LinkMove l [.connect fd l.addr r] { l with linked := decide (r ≠ .error) }
  | redial (l : Link) (old fd : Nat) (hfd : l.fd = some old) :
      LinkMove l [.close old, .socket l.addr (some fd)]
        { l with
          fd := some fd
          inEpoll := false
          armed := .done
          newest := some fd
          linked := false }
  | close (l : Link) (fd : Nat) (hfd : l.fd = some fd) :
      LinkMove l [.close fd] { l with fd := none, inEpoll := false }
  | park (l : Link) (fd : Nat) (pool : List ProxyIdle) (hfd : l.fd = some fd)
      (hin : l.inEpoll = false) (hlinked : l.linked = true)
      (hput : proxyPoolPut l.pool fd l.addr l.len = some pool) :
      LinkMove l [] { l with fd := none, pool := pool }

/-- The link when an exchange with the address starts: what it had before is forgotten. -/
def Link.aim (l : Link) (addr : List UInt8) (len : Nat) : Link :=
  { l with fd := none, addr := addr, len := len, inEpoll := false, armed := .done }

/-- How an exchange with the address gets a socket. -/
inductive LinkOpens (addr : List UInt8) (len : Nat) : Link → List ControlCall → Link → Prop
  | refused (l : Link) : LinkOpens addr len l [] (l.aim addr len)
  | failed (l : Link) : LinkOpens addr len l [.socket addr none] (l.aim addr len)
  | take (l : Link) (fd : Nat) (pool : List ProxyIdle)
      (htake : proxyPoolTake l.pool addr len = (some fd, pool)) :
      LinkOpens addr len l []
        { l.aim addr len with fd := some fd, newest := some fd, pool := pool, linked := true }
  | dial (l : Link) (fd : Nat) (hmiss : (proxyPoolTake l.pool addr len).1 = none) :
      LinkOpens addr len l [.socket addr (some fd)]
        { l.aim addr len with fd := some fd, newest := some fd, linked := false }

/-- A sequence of moves, with all their calls. -/
inductive LinkMoves : Link → List ControlCall → Link → Prop
  | refl (l : Link) : LinkMoves l [] l
  | tail {l m n : Link} {cs cs' : List ControlCall} (hs : LinkMoves l cs m)
      (h : LinkMove m cs' n) : LinkMoves l (cs ++ cs') n

theorem LinkMove.moves {l m : Link} {cs : List ControlCall} (h : LinkMove l cs m) :
    LinkMoves l cs m := by
  have := LinkMoves.tail (.refl l) h
  rw [List.nil_append] at this
  exact this

/-- Moves, one after the other. -/
theorem LinkMoves.trans {l m n : Link} {cs cs' : List ControlCall} (h : LinkMoves l cs m)
    (h' : LinkMoves m cs' n) : LinkMoves l (cs ++ cs') n := by
  induction h' with
  | refl => rw [List.append_nil]; exact h
  | tail _ hm ih =>
      rw [← List.append_assoc]
      exact .tail ih hm

/-- What `proxy_begin` does to a link: it goes on with what there is, or opens it first. -/
inductive LinkPath (addr : List UInt8) (len : Nat) : Link → List ControlCall → Link → Prop
  | moves {l m : Link} {cs : List ControlCall} (h : LinkMoves l cs m) : LinkPath addr len l cs m
  | opens {l m n : Link} {cs cs' : List ControlCall} (ho : LinkOpens addr len l cs m)
      (h : LinkMoves m cs' n) : LinkPath addr len l (cs ++ cs') n

/-- A call that goes on. -/
theorem LinkPath.trans {addr : List UInt8} {len : Nat} {l m n : Link} {cs cs' : List ControlCall}
    (h : LinkPath addr len l cs m) (h' : LinkMoves m cs' n) : LinkPath addr len l (cs ++ cs') n := by
  cases h with
  | moves h => exact .moves (h.trans h')
  | opens ho h =>
      rw [List.append_assoc]
      exact .opens ho (h.trans h')

/-! ## The link of a world -/

/-- What the kernel has recorded about sockets. -/
def bonds (k : Kernel) : List ControlCall × Option Nat :=
  (k.wire.calls, k.wire.conns.head?.map (·.fd))

/-- What a slot knows of its upstream socket. -/
def ProxyConn.plug (px : ProxyConn) : Option Nat × List UInt8 × Nat × Bool × HttpIo :=
  (px.fd, px.upAddr, px.upLen, px.inEpoll, px.armed)

namespace World

/-- What a slot has of its upstream connection; `linked` says whether the exchange is on. -/
def link (w : World) (linked : Bool) : Link where
  fd := w.px.fd
  addr := w.px.upAddr
  len := w.px.upLen
  inEpoll := w.px.inEpoll
  armed := w.px.armed
  newest := (bonds w.kernel).2
  pool := w.pool
  linked := linked

/-- The client connection without its waiting response, its cork and its deadline, and
what the end of an exchange sets. -/
def client (w : World) : HttpConn :=
  { w.hc with
    phase := .read
    corkOn := false
    keep := false
    statusCode := 0
    deadlineMs := 0
    lastActiveMs := 0
    fixed := []
    fixedOff := 0 }

/-- The response that waits on the client connection. -/
def reply (w : World) : HttpPhase × List UInt8 × Nat := (w.hc.phase, w.hc.fixed, w.hc.fixedOff)

/-- The response that waits stays, or the proxy has made one itself. -/
def Replies (w w' : World) : Prop :=
  w'.reply = w.reply ∨ ∃ resp ∈ [RESP_405, RESP_411, RESP_502], w'.reply = (.writeFixed, resp, 0)

end World

/-- `w'` comes from `w` by moves; `b` and `b'` say whether the upstream socket is
connected before and after. The client connection stays as it is, but for a response of
the proxy. -/
def Linked (b : Bool) (w : World) (b' : Bool) (w' : World) : Prop :=
  w'.client = w.client ∧ w.Replies w' ∧ ∃ cs, w'.kernel.wire.calls = w.kernel.wire.calls ++ cs ∧
    LinkMoves (w.link b) cs (w'.link b')

/-- The two worlds have the same sockets. -/
structure SameSockets (w w' : World) : Prop where
  plug : w'.px.plug = w.px.plug
  pool : w'.pool = w.pool
  bonds : bonds w'.kernel = bonds w.kernel
  client : w'.client = w.client
  replies : w.Replies w'

section Linked

variable {w w' w'' : World} {b b' b'' : Bool}

theorem World.Replies.trans (h : w.Replies w') (h' : w'.Replies w'') : w.Replies w'' := by
  rcases h' with h' | h'
  · unfold World.Replies
    rw [h']
    exact h
  · exact Or.inr h'

/-- A field of the client connection that the proxy leaves alone. -/
theorem World.client_get {α : Type} (f : HttpConn → α) (h : w'.client = w.client) :
    f w'.client = f w.client := congrArg f h

/-- No phase but `HTTP_PHASE_READ` leads to it. -/
theorem World.Replies.read (h : w.Replies w') (hread : w'.hc.phase = .read) : w.hc.phase = .read := by
  rcases h with h | ⟨resp, -, h⟩
  · exact (congrArg Prod.fst h).symm.trans hread
  · have hphase : w'.hc.phase = .writeFixed := congrArg Prod.fst h
    rw [hphase] at hread
    cases hread

/-- Two steps of a call. -/
theorem Linked.trans (h : Linked b w b' w') (h' : Linked b' w' b'' w'') : Linked b w b'' w'' := by
  obtain ⟨hclient, hreply, cs, hcalls, hm⟩ := h
  obtain ⟨hclient', hreply', cs', hcalls', hm'⟩ := h'
  refine ⟨hclient'.trans hclient, hreply.trans hreply', cs ++ cs', ?_, hm.trans hm'⟩
  rw [hcalls', hcalls, List.append_assoc]

theorem SameSockets.parts (h : SameSockets w w') : w'.px.fd = w.px.fd ∧
    w'.px.upAddr = w.px.upAddr ∧ w'.px.upLen = w.px.upLen ∧ w'.px.inEpoll = w.px.inEpoll ∧
      w'.px.armed = w.px.armed := by
  have hplug := h.plug
  simp only [ProxyConn.plug, Prod.mk.injEq] at hplug
  exact hplug

theorem SameSockets.link (h : SameSockets w w') (b : Bool) : w'.link b = w.link b := by
  obtain ⟨hfd, haddr, hlen, hin, harmed⟩ := h.parts
  unfold World.link
  rw [hfd, haddr, hlen, hin, harmed, h.pool, h.bonds]

/-- A step that leaves the sockets alone. -/
theorem SameSockets.linked (h : SameSockets w w') : Linked b w b w' := by
  refine ⟨h.client, h.replies, [], ?_, ?_⟩
  · rw [List.append_nil]
    exact congrArg Prod.fst h.bonds
  · rw [h.link]
    exact .refl _

/-- Two such steps. -/
theorem SameSockets.trans (h : SameSockets w w') (h' : SameSockets w' w'') : SameSockets w w'' :=
  ⟨h'.plug.trans h.plug, h'.pool.trans h.pool, h'.bonds.trans h.bonds, h'.client.trans h.client,
    h.replies.trans h'.replies⟩

theorem SameSockets.refl (w : World) : SameSockets w w := ⟨rfl, rfl, rfl, rfl, .inl rfl⟩

theorem Linked.refl (b : Bool) (w : World) : Linked b w b w := (SameSockets.refl w).linked

/-- A step that is one move. -/
theorem Linked.one (cs : List ControlCall) (hclient : w'.client = w.client)
    (hreply : w.Replies w')
    (hcalls : w'.kernel.wire.calls = w.kernel.wire.calls ++ cs)
    (hm : LinkMove (w.link b) cs (w'.link b')) : Linked b w b' w' :=
  ⟨hclient, hreply, cs, hcalls, hm.moves⟩

end Linked

/-! ## Reading and sending -/

section Kernel

variable (k : Kernel) (e : End)

/-- A change of the newest connection leaves its descriptor. -/
theorem newest_onNewest (conns : List UpstreamConn) (f : UpstreamConn → UpstreamConn)
    (hf : ∀ c, (f c).fd = c.fd) :
    (onNewest conns f).head?.map (·.fd) = conns.head?.map (·.fd) := by
  cases conns with
  | nil => rfl
  | cons c cs => exact congrArg some (hf c)

theorem recordSend_bonds (bytes : List UInt8) : bonds (k.recordSend e bytes) = bonds k := by
  cases e with
  | client => rfl
  | upstream => exact congrArg (Prod.mk _) (newest_onNewest _ _ fun _ => rfl)

theorem recordRead_bonds (r : ReadOutcome) : bonds (k.recordRead e r) = bonds k := by
  cases e with
  | client => cases r <;> rfl
  | upstream =>
      cases r with
      | got bytes => exact congrArg (Prod.mk _) (newest_onNewest _ _ fun _ => rfl)
      | eof => exact congrArg (Prod.mk _) (newest_onNewest _ _ fun _ => rfl)
      | interrupted => rfl
      | wouldBlock => rfl
      | error => rfl

theorem setReads_bonds (rs : List ReadResult) : bonds (k.setReads e rs) = bonds k := by
  cases e <;> rfl

theorem setSends_bonds (rs : List SendResult) : bonds (k.setSends e rs) = bonds k := by
  cases e <;> rfl

@[simp] theorem send_bonds (data : List UInt8) : bonds (k.send e data).2.2 = bonds k :=
  (recordSend_bonds _ e _).trans (setSends_bonds k e _)

@[simp] theorem sendmsg_bonds (data : List UInt8) : bonds (k.sendmsg e data).2.2 = bonds k :=
  (recordSend_bonds _ e _).trans (setSends_bonds k e _)

@[simp] theorem read_bonds (room : Nat) : bonds (k.read e room).2 = bonds k :=
  (recordRead_bonds _ e _).trans (setReads_bonds k e _)

@[simp] theorem readThrough_bonds (room : Nat) : bonds (k.readThrough e room).2 = bonds k :=
  (recordRead_bonds _ e _).trans (setReads_bonds k e _)

end Kernel

namespace World

section Steps

variable {w : World} {b : Bool}

theorem moved_sockets (w : World) (now n : Nat) : SameSockets w (w.moved now n) := by
  unfold moved
  split
  · exact .refl w
  · exact ⟨rfl, rfl, rfl, rfl, .inl rfl⟩

theorem markSent_sockets (w : World) (n : Nat) : SameSockets w (w.markSent n) := by
  unfold markSent
  split
  · exact .refl w
  · exact ⟨rfl, rfl, rfl, rfl, .inl rfl⟩

theorem noteBody_sockets {v : World} {n : Nat} (h : w.noteBody n = some v) : SameSockets w v := by
  obtain ⟨px, hpx, rfl⟩ := Option.map_eq_some_iff.1 h
  refine ⟨?_, rfl, rfl, rfl, .inl rfl⟩
  show px.plug = w.px.plug
  unfold Proxy.noteBody at hpx
  split at hpx
  · rw [← Option.some.inj hpx]
  split at hpx
  · simp only at hpx
    split at hpx
    · cases hpx
    · rw [← Option.some.inj hpx]
      rfl
  split at hpx
  · rw [← Option.some.inj hpx]
    rfl
  · rw [← Option.some.inj hpx]

/-- A quiet call that neither connects nor registers a socket. -/
theorem quiet_linked {v : World} (c : ControlCall) (hc : c.Quiet) (hconn : ¬ IsConnect c)
    (hepoll : ¬ IsEpoll c) (hclient : v.client = w.client) (hreply : v.reply = w.reply)
    (hcalls : v.kernel.wire.calls = w.kernel.wire.calls ++ [c]) (hlink : v.link b = w.link b) :
    Linked b w b v := by
  refine .one [c] hclient (.inl hreply) hcalls ?_
  rw [hlink]
  exact .quiet _ c hc hconn hepoll

theorem cork_linked (w : World) (fd : Nat) (on corkOn : Bool) (px : ProxyConn)
    (hplug : px.plug = w.px.plug) :
    Linked b w b { w with
      kernel := (w.kernel.cork fd on).2
      px := px
      hc := { w.hc with corkOn := corkOn } } := by
  simp only [ProxyConn.plug, Prod.mk.injEq] at hplug
  obtain ⟨hfd, haddr, hlen, hin, harmed⟩ := hplug
  refine quiet_linked (.cork fd on (w.kernel.cork fd on).1) ⟨rfl, nofun⟩
    (by rintro ⟨_, _, _, h⟩; cases h) (by rintro ⟨_, _, _, h⟩; cases h) rfl rfl rfl ?_
  unfold link
  rw [hfd, haddr, hlen, hin, harmed]
  rfl

theorem detach_px (w : World) (fd : Nat) : (w.detach fd).px = w.px := by
  unfold detach
  simp only
  split <;> split <;> rfl

/-- `detach` takes the socket out of epoll, although `in_epoll` stays as it is. -/
theorem detach_moves (b : Bool) {fd : Nat} (hfd : w.px.fd = some fd) :
    (w.detach fd).client = w.client ∧ (w.detach fd).reply = w.reply ∧
      (w.detach fd).kernel.wire.conns = w.kernel.wire.conns ∧
        ∃ cs, (w.detach fd).kernel.wire.calls = w.kernel.wire.calls ++ cs ∧
          LinkMoves (w.link b) cs { w.link b with inEpoll := false } := by
  have hcork : ∀ on ok, LinkMove { w.link b with inEpoll := false } [.cork fd on ok]
      { w.link b with inEpoll := false } := fun on ok => .quiet _ (.cork fd on ok) ⟨rfl, nofun⟩
    (by rintro ⟨_, _, _, h⟩; cases h) (by rintro ⟨_, _, _, h⟩; cases h)
  cases hin : w.px.inEpoll with
  | false =>
      have hlink : { w.link b with inEpoll := false } = w.link b := by
        unfold link
        rw [hin]
      unfold detach
      simp only [hin, Bool.false_eq_true, if_false]
      split
      · refine ⟨rfl, rfl, rfl, _, rfl, ?_⟩
        have hm := hcork false (w.kernel.cork fd false).1
        rw [hlink] at hm ⊢
        exact hm.moves
      · refine ⟨rfl, rfl, rfl, [], (List.append_nil _).symm, ?_⟩
        rw [hlink]
        exact .refl _
  | true =>
      have hdel : ∀ ok, LinkMove (w.link b) [.epollCtl fd .del ok]
          { w.link b with inEpoll := false } := fun ok => .unplug _ fd ok hfd hin
      unfold detach
      simp only [hin, if_true]
      split
      · exact ⟨rfl, rfl, rfl, _, List.append_assoc .., (hdel _).moves.trans (hcork _ _).moves⟩
      · exact ⟨rfl, rfl, rfl, _, rfl, (hdel _).moves⟩

theorem detach_pool (w : World) (fd : Nat) : (w.detach fd).pool = w.pool := by
  unfold detach
  simp only
  split <;> split <;> rfl

/-- What is left of the link of a slot that has no upstream socket. -/
theorem rename_moves {l m : Link} (hfd : l.fd = none) (hfd' : m.fd = none)
    (hin : m.inEpoll = l.inEpoll) (hpool : m.pool = l.pool) (hnewest : m.newest = l.newest) :
    LinkMoves l [] m := by
  have hm := LinkMove.rename l m.addr m.len m.armed m.linked hfd
  refine Eq.subst (motive := fun x => LinkMoves l [] x) ?_ hm.moves
  rw [← hin, ← hpool, ← hnewest, hfd, ← hfd']

/-- The world does not change, but what `linked` says. -/
theorem forgetLinked {c : Bool} (hfd : w.px.fd = none) : Linked b w c w :=
  ⟨rfl, .inl rfl, [], (List.append_nil _).symm, rename_moves hfd hfd rfl rfl rfl⟩

/-- The upstream socket leaves epoll and is closed. -/
theorem detachClose_linked {fd : Nat} (px : ProxyConn) (hfd : w.px.fd = some fd)
    (hnone : px.fd = none) (hin : px.inEpoll = false) :
    Linked b w b { w.detach fd with kernel := (w.detach fd).kernel.close fd, px := px } := by
  obtain ⟨hclient, hreply, hconns, cs, hcalls, hm⟩ := detach_moves b hfd
  have hclose : LinkMove { w.link b with inEpoll := false } [.close fd] _ := .close _ fd hfd
  refine ⟨hclient, .inl hreply, cs ++ [.close fd], ?_, ?_⟩
  · show (w.detach fd).kernel.wire.calls ++ [.close fd] = _
    rw [hcalls, List.append_assoc]
  · have hlast : LinkMoves { { w.link b with inEpoll := false } with fd := none, inEpoll := false }
        [] (World.link { w.detach fd with kernel := (w.detach fd).kernel.close fd, px := px } b) := by
      refine rename_moves rfl hnone hin (detach_pool w fd) ?_
      show (w.detach fd).kernel.wire.conns.head?.map (·.fd) = _
      rw [hconns]
      rfl
    have hall := (hm.trans hclose.moves).trans hlast
    rw [List.append_nil] at hall
    exact hall

/-- After `proxy_close` there is no upstream socket. -/
theorem proxyClose_fd (w : World) : w.proxyClose.px.fd = none := by
  unfold proxyClose
  split
  · assumption
  · rfl

/-- Nor is there one after `proxy_fail`. -/
theorem proxyFail_fd (w : World) (now : Nat) : (w.proxyFail now).2.px.fd = none := by
  unfold proxyFail
  simp only
  split
  · exact proxyClose_fd w
  · exact proxyClose_fd w

/-- The calls of `proxy_close`. -/
theorem proxyClose_linked (w : World) : Linked b w b w.proxyClose := by
  unfold proxyClose
  cases hfd : w.px.fd with
  | none => exact .refl b w
  | some fd =>
      exact detachClose_linked _ hfd rfl rfl

/-- A change of the client connection. -/
theorem hc_linked (w : World) (hc : HttpConn) (hclient : { w with hc := hc }.client = w.client)
    (hreply : w.Replies { w with hc := hc }) : Linked b w b { w with hc := hc } :=
  SameSockets.linked ⟨rfl, rfl, rfl, hclient, hreply⟩

/-- The proxy makes a response. -/
theorem armFixed_linked (w : World) {resp : List UInt8} (status now : Nat)
    (hresp : resp ∈ [RESP_405, RESP_411, RESP_502]) :
    Linked b w b (w.armFixed resp status now) :=
  hc_linked w _ rfl (.inr ⟨resp, hresp, rfl⟩)

/-- The calls of `proxy_fail`. -/
theorem proxyFail_linked (w : World) (now : Nat) : Linked b w b (w.proxyFail now).2 := by
  unfold proxyFail
  simp only
  split
  · exact proxyClose_linked w
  · exact (proxyClose_linked w).trans (armFixed_linked _ 502 now (by simp))

/-- The calls of `cork_client`. -/
theorem corkClient_linked (w : World) (on : Bool) : Linked b w b (w.corkClient on) := by
  unfold corkClient
  split
  · exact .refl b w
  · split
    · exact .refl b w
    · simp only
      split
      · exact cork_linked w _ on _ w.px rfl
      · exact cork_linked w _ on w.hc.corkOn w.px rfl

/-- The calls of `cork_up`. -/
theorem corkUp_linked (w : World) (on : Bool) : Linked b w b (w.corkUp on) := by
  unfold corkUp
  split
  · exact .refl b w
  · split
    · exact .refl b w
    · simp only
      split
      · exact cork_linked w _ on w.hc.corkOn _ rfl
      · exact cork_linked w _ on w.hc.corkOn w.px rfl

/-- The calls of `arm_up`. -/
theorem armUp_linked (w : World) (io : HttpIo) : Linked b w b (w.armUp io).2 := by
  unfold armUp
  split
  · exact .refl b w
  rename_i fd hfd
  split
  · exact .refl b w
  extract_lets interest r
  have hcall : (w.kernel.epollCtl fd ((w.link b).armOp io)).2.wire.calls =
      w.kernel.wire.calls ++ [.epollCtl fd ((w.link b).armOp io) r.1] := rfl
  split
  · rename_i hok
    refine .one _ rfl (.inl rfl) hcall ?_
    rw [hok]
    exact .arm _ fd io hfd
  · rename_i hno
    have hno : r.1 = false := by simpa using hno
    refine .one _ rfl (.inl rfl) hcall ?_
    rw [hno]
    exact .armFail _ fd io hfd

/-- The calls of `yield_up`. -/
theorem yieldUp_linked (w : World) (u c : HttpIo) : Linked b w b (w.yieldUp u c).2 := by
  unfold yieldUp
  simp only
  split
  · exact armUp_linked w u
  · split
    · exact armUp_linked w u
    · exact armUp_linked w u

/-- A connected socket is parked or closed. -/
theorem proxyRelease_linked {fd : Nat} (hfd : w.px.fd = some fd) :
    Linked true w true (w.proxyRelease fd) := by
  unfold proxyRelease
  simp only
  cases hput : proxyPoolPut (w.detach fd).pool fd w.px.upAddr w.px.upLen with
  | none => exact detachClose_linked _ hfd rfl rfl
  | some pool =>
      obtain ⟨hclient, hreply, hconns, cs, hcalls, hm⟩ := detach_moves true hfd
      rw [detach_pool] at hput
      have hpark : LinkMove { w.link true with inEpoll := false } [] _ :=
        .park _ fd pool hfd rfl rfl hput
      refine ⟨hclient, .inl hreply, cs ++ [] ++ [], ?_, ?_⟩
      · rw [List.append_nil, List.append_nil]
        exact hcalls
      · refine (hm.trans hpark.moves).trans (rename_moves rfl rfl rfl rfl ?_)
        show (w.detach fd).kernel.wire.conns.head?.map (·.fd) = _
        rw [hconns]
        rfl

/-- The calls of `proxy_done`. -/
theorem proxyDone_linked (w : World) : Linked true w true w.proxyDone.2 := by
  have hcork := corkClient_linked (b := true) w false
  unfold proxyDone
  extract_lets code keep w₁ w₂
  refine hcork.trans (Linked.trans ?_ (hc_linked w₂ _ rfl (.inl rfl)))
  cases hfd : w₁.px.fd with
  | none =>
      simp only [w₂, hfd]
      exact proxyClose_linked w₁
  | some fd =>
      simp only [w₂, hfd]
      split
      · exact proxyRelease_linked hfd
      · exact proxyClose_linked w₁

/-- A socket is replaced by a new one, which `connect` is still to be called on. -/
theorem redial_linked {old fd : Nat} (px : ProxyConn) (hfd : w.px.fd = some old)
    (hsocket : (w.dropUpstream.kernel.socket w.px.upAddr).1 = some fd)
    (hplug : px.plug = (some fd, w.px.upAddr, w.px.upLen, false, .done)) :
    Linked b w false { w.dropUpstream with
      kernel := (w.dropUpstream.kernel.socket w.px.upAddr).2.openConn fd false
      px := px } := by
  obtain ⟨hclient, hreply, -, cs, hcalls, hm⟩ := detach_moves b hfd
  have hdrop : w.dropUpstream = { w.detach old with
      kernel := (w.detach old).kernel.close old
      px := w.dropUpstream.px } := by
    unfold dropUpstream
    rw [hfd]
  have hredial : LinkMove { w.link b with inEpoll := false } _ _ := .redial _ old fd hfd
  refine ⟨?_, .inl ?_, cs ++ [.close old, .socket w.px.upAddr (some fd)], ?_, ?_⟩
  · rw [hdrop]
    exact hclient
  · rw [hdrop]
    exact hreply
  · show w.dropUpstream.kernel.wire.calls ++
      [.socket w.px.upAddr (w.dropUpstream.kernel.socket w.px.upAddr).1] = _
    rw [hsocket, hdrop]
    show ((w.detach old).kernel.wire.calls ++ [.close old]) ++ _ = _
    rw [hcalls, List.append_assoc, List.append_assoc]
    rfl
  · refine Eq.subst (motive := fun x => LinkMoves _ _ x) ?_ (hm.trans hredial.moves)
    simp only [ProxyConn.plug, Prod.mk.injEq] at hplug
    obtain ⟨hfd', haddr, hlen, hin, harmed⟩ := hplug
    unfold link
    simp only [hfd', haddr, hlen, hin, harmed]
    have hpool : w.dropUpstream.pool = w.pool := by
      rw [hdrop]
      exact detach_pool w old
    rw [hpool]
    rfl

/-- The socket is closed and there is no new one. -/
theorem dropped_linked {old : Nat} (hfd : w.px.fd = some old)
    (hsocket : (w.dropUpstream.kernel.socket w.px.upAddr).1 = none) :
    Linked b w b { w.dropUpstream with
      kernel := (w.dropUpstream.kernel.socket w.px.upAddr).2 } := by
  have hdrop : Linked b w b w.dropUpstream := by
    unfold dropUpstream
    rw [hfd]
    exact detachClose_linked _ hfd rfl rfl
  refine hdrop.trans (quiet_linked (.socket w.px.upAddr none) ⟨rfl, nofun⟩
    (by rintro ⟨_, _, _, h⟩; cases h) (by rintro ⟨_, _, _, h⟩; cases h) rfl rfl ?_ rfl)
  rw [← hsocket]
  rfl

/-- The call of `connect`. -/
theorem connect_linked {fd : Nat} (hfd : w.px.fd = some fd) :
    Linked b w (decide ((w.kernel.connect fd w.px.upAddr).1 ≠ .error))
      { w with kernel := (w.kernel.connect fd w.px.upAddr).2 } :=
  .one [.connect fd w.px.upAddr _] rfl (.inl rfl) rfl (.connect _ fd _ hfd)

/-- The cork before a body. -/
theorem bodyCork_linked (w : World) : Linked b w b (if w.hasBody then w.corkUp true else w) := by
  split
  · exact corkUp_linked w true
  · exact .refl b w

theorem bodyCork_px (w : World) : (if w.hasBody then w.corkUp true else w).px.fd = w.px.fd ∧
    (if w.hasBody then w.corkUp true else w).px.upAddr = w.px.upAddr := by
  split
  · unfold corkUp
    split
    · exact ⟨rfl, rfl⟩
    · split
      · exact ⟨rfl, rfl⟩
      · simp only
        split
        · exact ⟨rfl, rfl⟩
        · exact ⟨rfl, rfl⟩
  · exact ⟨rfl, rfl⟩

theorem dropUpstream_plug (w : World) :
    w.dropUpstream.px.plug = (none, w.px.upAddr, w.px.upLen, false, .done) := by
  unfold dropUpstream
  split
  · rfl
  · simp only [ProxyConn.plug, detach_px]

/-- The calls of `proxy_reopen`. -/
theorem proxyReopen_linked (hlive : w.px.fd.isSome = true) :
    ∃ b', Linked b w b' w.proxyReopen.2 ∧
      (w.proxyReopen.1 = true → b' = true ∧ w.proxyReopen.2.px.fd.isSome = true) := by
  obtain ⟨old, hold⟩ := Option.isSome_iff_exists.1 hlive
  have hplug := dropUpstream_plug w
  simp only [ProxyConn.plug, Prod.mk.injEq] at hplug
  obtain ⟨-, haddr, hlen, hin, harmed⟩ := hplug
  unfold proxyReopen
  extract_lets w₁ r
  have haddr₁ : w₁.px.upAddr = w.px.upAddr := haddr
  split
  · rename_i hsocket
    have hnone : (w.dropUpstream.kernel.socket w.px.upAddr).1 = none := by
      rw [← haddr₁]
      exact hsocket
    refine ⟨b, ?_, nofun⟩
    have hlast : Linked b w b _ := dropped_linked hold hnone
    rw [← haddr₁] at hlast
    exact hlast
  · rename_i fd hsocket
    extract_lets w₂ w₃ c
    have hsome : (w.dropUpstream.kernel.socket w.px.upAddr).1 = some fd := by
      rw [← haddr₁]
      exact hsocket
    have hdial : Linked b w false w₂ := by
      have hlast : Linked b w false _ := redial_linked w₂.px hold hsome (by
        show (some fd, w₁.px.upAddr, w₁.px.upLen, w₁.px.inEpoll, w₁.px.armed) = _
        rw [haddr, hlen, hin, harmed])
      rw [← haddr₁] at hlast
      exact hlast
    have hcork : Linked false w₂ false w₃ := bodyCork_linked w₂
    obtain ⟨hfd₃, haddr₃⟩ := bodyCork_px w₂
    have hconn : Linked false w₃ (decide (c.1 ≠ .error)) { w₃ with kernel := c.2 } :=
      connect_linked hfd₃
    refine ⟨_, (hdial.trans hcork).trans hconn, fun hok => ⟨hok, ?_⟩⟩
    show w₃.px.fd.isSome = true
    rw [hfd₃]
    rfl

end Steps

/-! ## Turns -/

/-- `v` comes from `w` by moves that leave the slot its socket. -/
def Keeps (w v : World) : Prop := Linked true w true v ∧ v.px.fd = w.px.fd

/-- A turn leaves a connected socket, unless it fails, and the loop goes on with one. -/
def TurnLinked (w : World) (r : World × Exit) : Prop :=
  ∃ b, Linked true w b r.1 ∧ (r.2 ≠ .fail → b = true) ∧
    ∀ k, r.2 = .again k → r.1.px.fd.isSome = true

section Turns

variable {w : World} {now b : Nat}

/-- Two steps that keep the sockets. -/
theorem Keeps.trans {u v : World} (h : Keeps w u) (h' : Keeps u v) : Keeps w v :=
  ⟨h.1.trans h'.1, h'.2.trans h.2⟩

theorem keeps_of_same {v : World} (h : SameSockets w v) : Keeps w v := ⟨h.linked, h.parts.1⟩

theorem corkUp_keeps (w : World) (on : Bool) : Keeps w (w.corkUp on) := by
  refine ⟨corkUp_linked w on, ?_⟩
  unfold corkUp
  split
  · rfl
  split
  · rfl
  · simp only
    split
    · rfl
    · rfl

theorem corkClient_keeps (w : World) (on : Bool) : Keeps w (w.corkClient on) := by
  refine ⟨corkClient_linked w on, ?_⟩
  unfold corkClient
  split
  · rfl
  split
  · rfl
  · simp only
    split
    · rfl
    · rfl

/-- A turn that keeps the sockets. -/
theorem TurnLinked.of_keeps {r : World × Exit} (hlive : w.px.fd.isSome = true)
    (h : Keeps w r.1) : TurnLinked w r := by
  refine ⟨true, h.1, fun _ => rfl, fun _ _ => ?_⟩
  rw [h.2]
  exact hlive

theorem TurnLinked.of_same {r : World × Exit} (hlive : w.px.fd.isSome = true)
    (h : SameSockets w r.1) : TurnLinked w r := .of_keeps hlive (keeps_of_same h)

/-- A turn after a step. -/
theorem TurnLinked.after {v : World} {r : World × Exit} (h : Linked true w true v)
    (h' : TurnLinked v r) : TurnLinked w r := by
  obtain ⟨b, hlinked, hb⟩ := h'
  exact ⟨b, h.trans hlinked, hb⟩

theorem sendReqNext_keeps (w : World) (b : Nat) : Keeps w (w.sendReqNext b).1 := by
  unfold sendReqNext
  split
  · exact keeps_of_same ⟨rfl, rfl, rfl, rfl, .inl rfl⟩
  · exact (corkUp_keeps w false).trans (keeps_of_same ⟨rfl, rfl, rfl, rfl, .inl rfl⟩)

/-- The calls of `PX_SEND_REQ`. -/
theorem sendReqTurn_linked (hlive : w.px.fd.isSome = true) (now b : Nat) :
    TurnLinked w (w.sendReqTurn now b) := by
  unfold sendReqTurn
  split
  · extract_lets r src w₁ q
    have hsend : SameSockets w w₁ := ⟨rfl, rfl, send_bonds .., rfl, .inl rfl⟩
    have hlive₁ : w₁.px.fd.isSome = true := hlive
    have hmoved := hsend.trans (moved_sockets w₁ now r.1)
    split
    · split
      · obtain ⟨b', hre, hb'⟩ := proxyReopen_linked (b := true) hlive₁
        split
        · rename_i hq
          exact ⟨b', hsend.linked.trans hre, fun _ => (hb' hq).1, fun _ _ => (hb' hq).2⟩
        · exact ⟨b', hsend.linked.trans hre, fun hne => absurd rfl hne, nofun⟩
      · exact .of_same hlive hsend
    · exact .of_same hlive hmoved
    · exact .of_keeps hlive ((keeps_of_same hmoved).trans (sendReqNext_keeps _ _))
  · exact .of_keeps hlive (sendReqNext_keeps w b)

/-- `PX_SEND_BODY` keeps the sockets. -/
theorem sendBodyTurn_keeps (w : World) (now b : Nat) : Keeps w (w.sendBodyTurn now b).1 := by
  unfold sendBodyTurn
  split
  · extract_lets r src w₁
    have hsend : SameSockets w w₁ := ⟨rfl, rfl, send_bonds .., rfl, .inl rfl⟩
    have hmoved := hsend.trans (moved_sockets w₁ now r.1)
    split
    · exact keeps_of_same hsend
    · exact keeps_of_same hmoved
    · exact keeps_of_same (hmoved.trans ⟨rfl, rfl, rfl, rfl, .inl rfl⟩)
  split
  · extract_lets r src w₁
    have hsend : SameSockets w w₁ := ⟨rfl, rfl, send_bonds .., rfl, .inl rfl⟩
    have hmoved := hsend.trans (moved_sockets w₁ now r.1)
    split
    · exact keeps_of_same hsend
    · exact keeps_of_same hmoved
    · exact keeps_of_same hmoved
  split
  · extract_lets r src w₁
    have hread : SameSockets w w₁ := ⟨rfl, rfl, readThrough_bonds .., rfl, .inl rfl⟩
    split
    · exact keeps_of_same (hread.trans ⟨rfl, rfl, rfl, rfl, .inl rfl⟩)
    · exact keeps_of_same hread
    · exact keeps_of_same hread
  · exact (corkUp_keeps w false).trans (keeps_of_same ⟨rfl, rfl, rfl, rfl, .inl rfl⟩)

/-- The calls of `proxy_retry_idle`. -/
theorem proxyRetryIdle_linked (hlive : w.px.fd.isSome = true) :
    ∃ c, Linked true w c w.proxyRetryIdle.2 ∧
      (w.proxyRetryIdle.1 = true → c = true ∧ w.proxyRetryIdle.2.px.fd.isSome = true) := by
  obtain ⟨c, hre, hc⟩ := proxyReopen_linked (b := true) hlive
  unfold proxyRetryIdle
  split
  · exact ⟨true, .refl true w, nofun⟩
  · extract_lets -lift r
    split
    · exact ⟨c, hre, nofun⟩
    · rename_i hok
      have hok : r.1 = true := by simpa using hok
      refine ⟨c, hre.trans (SameSockets.linked ⟨rfl, rfl, rfl, rfl, .inl rfl⟩), fun _ => ?_⟩
      exact hc hok

theorem retryOrFail_linked (hlive : w.px.fd.isSome = true) (b : Nat) :
    TurnLinked w (w.retryOrFail b) := by
  obtain ⟨c, hretry, hc⟩ := proxyRetryIdle_linked hlive
  unfold retryOrFail
  split
  · extract_lets -lift q
    split
    · rename_i hq
      exact ⟨c, hretry, fun _ => (hc hq).1, fun _ _ => (hc hq).2⟩
    · exact ⟨c, hretry, fun hne => absurd rfl hne, nofun⟩
  · exact .of_same hlive (.refl w)

theorem rewriteResponse_plug {px : ProxyConn} {src : List UInt8}
    (h : rewriteResponse w.hc.req w.px src = .final px) : px.plug = w.px.plug := by
  obtain ⟨_, _, _, _, -, -, -, -, -, hfin⟩ := rewriteResponse_final h
  rw [(finishResponse_final hfin).2.2]
  rfl

theorem headTurn_sockets (w : World) (b at' : Nat) : SameSockets w (w.headTurn b at').1 := by
  unfold headTurn
  extract_lets total rest left
  split
  · exact .refl w
  · exact ⟨rfl, rfl, rfl, rfl, .inl rfl⟩
  · rename_i px hfinal
    extract_lets w₁
    have hplug : px.plug = w.px.plug := rewriteResponse_plug hfinal
    have hhead : SameSockets w w₁ := ⟨hplug, rfl, rfl, rfl, .inl rfl⟩
    split
    · exact hhead.trans ⟨rfl, rfl, rfl, rfl, .inl rfl⟩
    · split
      · exact hhead
      · rename_i v hn
        exact (hhead.trans (noteBody_sockets hn)).trans ⟨rfl, rfl, rfl, rfl, .inl rfl⟩

/-- The calls of `PX_RECV_HDR`. -/
theorem recvHdrTurn_linked (hlive : w.px.fd.isSome = true) (now b : Nat) :
    TurnLinked w (w.recvHdrTurn now b) := by
  unfold recvHdrTurn
  split
  · exact .of_same hlive (headTurn_sockets w b _)
  split
  · exact .of_same hlive (.refl w)
  extract_lets -lift r w₁
  have hread : SameSockets w w₁ := ⟨rfl, rfl, read_bonds .., rfl, .inl rfl⟩
  have hlive₁ : w₁.px.fd.isSome = true := hlive
  split
  · exact .of_same hlive hread
  · exact (retryOrFail_linked hlive₁ b).after hread.linked
  · exact (retryOrFail_linked hlive₁ b).after hread.linked
  · exact .of_same hlive hread
  · extract_lets w₂
    have hgot : SameSockets w w₂ := hread.trans ⟨rfl, rfl, rfl, rfl, .inl rfl⟩
    split
    · exact .of_same hlive (hgot.trans (headTurn_sockets w₂ _ _))
    split
    · exact .of_same hlive hgot
    · exact .of_same hlive hgot

theorem clientDead_sockets (w : World) : SameSockets w w.clientDead.1 := by
  unfold clientDead
  split
  · exact .refl w
  · exact .refl w

theorem sendGatheredTurn_sockets (w : World) (now b : Nat) :
    SameSockets w (w.sendGatheredTurn now b).1 := by
  unfold sendGatheredTurn
  extract_lets head data r w₁ src w₂ w₃
  split
  · exact .refl w
  have hsend : SameSockets w w₁ := ⟨rfl, rfl, sendmsg_bonds .., rfl, .inl rfl⟩
  split
  · exact hsend.trans (clientDead_sockets w₁)
  · exact hsend
  · have hsent : SameSockets w w₂ := hsend.trans ⟨rfl, rfl, rfl, rfl, .inl rfl⟩
    have hmoved : SameSockets w w₃ :=
      (hsent.trans (markSent_sockets w₂ r.1)).trans (moved_sockets _ now r.1)
    split
    · exact hmoved
    · exact hmoved

theorem sendRespNext_sockets (w : World) (b : Nat) : SameSockets w (w.sendRespNext b).1 := by
  unfold sendRespNext
  split
  · exact .refl w
  · exact ⟨rfl, rfl, rfl, rfl, .inl rfl⟩

/-- `PX_SEND_RESP` keeps the sockets. -/
theorem sendRespTurn_keeps (w : World) (now b : Nat) : Keeps w (w.sendRespTurn now b).1 := by
  unfold sendRespTurn
  split
  · exact keeps_of_same (sendGatheredTurn_sockets w now b)
  extract_lets w₁ r src w₂ w₃
  refine (corkClient_keeps w true).trans (keeps_of_same ?_)
  show SameSockets w₁ _
  split
  · have hsend : SameSockets w₁ w₂ := ⟨rfl, rfl, send_bonds .., rfl, .inl rfl⟩
    have hmark : SameSockets w₁ w₃ := hsend.trans (markSent_sockets w₂ r.1)
    have hmoved := hmark.trans (moved_sockets w₃ now r.1)
    split
    · exact hmark.trans (clientDead_sockets w₃)
    · exact hmoved
    · exact hmoved.trans (sendRespNext_sockets _ _)
  · exact sendRespNext_sockets w₁ b

/-- `PX_STREAM` leaves the sockets alone. -/
theorem streamTurn_sockets (w : World) (now b : Nat) : SameSockets w (w.streamTurn now b).1 := by
  unfold streamTurn
  split
  · extract_lets r src w₁ w₂ src' w₃
    have hsend : SameSockets w w₁ := ⟨rfl, rfl, send_bonds .., rfl, .inl rfl⟩
    have hmoved : SameSockets w w₂ :=
      (hsend.trans (markSent_sockets w₁ r.1)).trans (moved_sockets _ now r.1)
    have hdrained : SameSockets w w₃ := hmoved.trans ⟨rfl, rfl, rfl, rfl, .inl rfl⟩
    split
    · exact hsend
    · exact hmoved
    · split
      · exact hdrained
      · exact hdrained
  split
  · exact .refl w
  extract_lets cap src flags r w₁ src'
  split
  · exact ⟨rfl, rfl, rfl, rfl, .inl rfl⟩
  have hread : SameSockets w w₁ := ⟨rfl, rfl, read_bonds .., rfl, .inl rfl⟩
  split
  · exact hread
  · exact hread
  · split
    · exact hread
    · exact hread
  · exact hread
  · split
    · exact hread
    · rename_i v hn
      have hnote := noteBody_sockets hn
      exact ⟨hnote.plug, hnote.pool, hnote.bonds.trans hread.bonds, hnote.client,
        hnote.replies⟩

/-- The calls of a phase. -/
theorem phaseTurn_linked (hlive : w.px.fd.isSome = true) (now b : Nat) :
    TurnLinked w (w.phaseTurn now b) := by
  unfold phaseTurn
  cases w.px.phase with
  | none => exact .of_same hlive (.refl w)
  | sendReq => exact sendReqTurn_linked hlive now b
  | sendBody => exact .of_keeps hlive (sendBodyTurn_keeps w now b)
  | recvHdr => exact recvHdrTurn_linked hlive now b
  | sendResp => exact .of_keeps hlive (sendRespTurn_keeps w now b)
  | stream => exact .of_same hlive (streamTurn_sockets w now b)

theorem flush100_sockets (w : World) : SameSockets w w.flush100.2 := by
  unfold flush100
  split
  · exact .refl w
  extract_lets r src w₁
  have hsend : SameSockets w w₁ := ⟨rfl, rfl, send_bonds .., rfl, .inl rfl⟩
  split
  · exact hsend.trans ⟨rfl, rfl, rfl, rfl, .inl rfl⟩
  · exact hsend

/-- The calls of a turn. -/
theorem pumpTurn_linked (hlive : w.px.fd.isSome = true) (now b : Nat) :
    TurnLinked w (w.pumpTurn now b) := by
  have hflush := flush100_sockets w
  unfold pumpTurn
  extract_lets f
  split
  · exact .of_same hlive hflush
  · exact .of_same hlive hflush
  split
  · exact .of_same hlive hflush
  · have hlive₁ : f.2.px.fd.isSome = true := by
      rw [hflush.parts.1]
      exact hlive
    exact (phaseTurn_linked hlive₁ now b).after hflush.linked

/-- Leaving the loop gives a connected socket back, and closes one that is not. -/
theorem leave_linked {c : Bool} {e : Exit} {io : HttpIo} {v : World} (hc : e ≠ .fail → c = true)
    (h : w.leave now e = some (io, v)) : Linked c w true v := by
  have hfail : Linked c w true (w.proxyFail now).2 :=
    (proxyFail_linked w now).trans (forgetLinked (proxyFail_fd w now))
  cases e with
  | again b' => cases h
  | fail =>
      have hv : w.proxyFail now = (io, v) := Option.some.inj h
      rw [hv] at hfail
      exact hfail
  | close =>
      rw [← (Prod.mk.inj (Option.some.inj h)).2]
      rw [hc nofun]
      exact proxyClose_linked w
  | done =>
      have hv : w.proxyDone = (io, v) := Option.some.inj h
      have hdone := proxyDone_linked w
      rw [hv] at hdone
      rw [hc nofun]
      exact hdone
  | ret io' =>
      rw [← (Prod.mk.inj (Option.some.inj h)).2]
      rw [hc nofun]
      exact .refl true w
  | yield u client =>
      have hyield := yieldUp_linked (b := true) w u client
      rw [hc nofun]
      unfold leave at h
      simp only at h
      split at h
      · have hv : (w.yieldUp u client).2.proxyFail now = (io, v) := Option.some.inj h
        have hlast := proxyFail_linked (b := true) (w.yieldUp u client).2 now
        rw [hv] at hlast
        exact hyield.trans hlast
      · rw [← (Prod.mk.inj (Option.some.inj h)).2]
        exact hyield

/-- The calls of the loop. -/
theorem pumpLoop_linked (now : Nat) {io : HttpIo} {v : World} (fuel : Nat) :
    ∀ (b : Nat) (w : World), w.px.fd.isSome = true → pumpLoop now fuel b w = some (io, v) →
      Linked true w true v := by
  induction fuel with
  | zero => exact fun _ _ _ => nofun
  | succ fuel ih =>
      intro b w hlive h
      obtain ⟨c, hturn, hc, hagain⟩ := pumpTurn_linked hlive now b
      rw [pumpLoop] at h
      rcases hr : w.pumpTurn now b with ⟨u, e⟩
      rw [hr] at h hturn hc hagain
      split at h
      · rename_i heq
        cases heq
        rw [hc nofun] at hturn
        exact hturn.trans (ih _ _ (hagain _ rfl) h)
      · rename_i heq
        cases heq
        exact hturn.trans (leave_linked hc h)

/-- The calls of `proxy_pump`. -/
theorem proxyPump_linked {fuel : Nat} {io : HttpIo} {v : World}
    (h : w.proxyPump fuel now = some (io, v)) : Linked true w true v := by
  unfold proxyPump at h
  split at h
  · rename_i r hentry
    rw [Option.some.inj h] at hentry
    unfold pumpEntry at hentry
    split at hentry
    · cases hentry
      exact .refl true w
    · split at hentry
      · cases hentry
        exact proxyClose_linked w
      · cases hentry
  · rename_i hentry
    refine pumpLoop_linked now fuel BUDGET w ?_ h
    unfold pumpEntry at hentry
    split at hentry
    · cases hentry
    · rename_i hlive
      exact Option.isSome_iff_ne_none.2 hlive

/-! ## The start of an exchange -/

/-- Where the exchange starts. -/
def beginWorld (w : World) (fd : Nat) (reused : Bool) : World :=
  { w with
    kernel := w.kernel.openConn fd reused
    px := { w.px with
      fd := some fd
      phase := .sendReq
      flags := { w.px.flags with reused := reused } } }

/-- What `proxy_begin` leaves. -/
def Begun (addr : List UInt8) (len : Nat) (w v : World) : Prop :=
  v.client = w.client ∧ w.Replies v ∧ ∃ cs,
    v.kernel.wire.calls = w.kernel.wire.calls ++ cs ∧
      LinkPath addr len (w.link true) cs (v.link true)

/-- What the start of an exchange leaves. Where it goes on, the slot has a socket. -/
def StartLinked (R : World → Prop) : Except (HttpIo × World) World → Prop
  | .error r => R r.2
  | .ok v => R v ∧ v.px.fd.isSome = true

theorem StartLinked.mono {R R' : World → Prop} (hsub : ∀ v, R v → R' v)
    {x : Except (HttpIo × World) World} (h : StartLinked R x) : StartLinked R' x := by
  cases x with
  | error r => exact hsub _ h
  | ok v => exact ⟨hsub _ h.1, h.2⟩

/-- A socket of the pool is connected, a new one is still to be. -/
theorem beginOn_linked (w : World) (fd : Nat) (reused : Bool) :
    StartLinked (Linked reused (beginWorld w fd reused) true) (beginOn w fd reused now) := by
  have hcork : Linked reused _ reused _ := bodyCork_linked (beginWorld w fd reused)
  obtain ⟨hfd, haddr⟩ := bodyCork_px (beginWorld w fd reused)
  unfold beginOn
  extract_lets src flags w₁ w₂ c w₃
  have hconn : Linked reused w₂ (decide (c.1 ≠ .error)) w₃ := by
    cases hr : reused with
    | true =>
        have hc : c = (.connected, w₂.kernel) := if_pos hr
        rw [show w₃ = { w₂ with kernel := c.2 } from rfl, hc]
        exact .refl true w₂
    | false =>
        have hc : c = w₂.kernel.connect fd w₂.px.upAddr := if_neg (by rw [hr]; exact nofun)
        rw [show w₃ = { w₂ with kernel := c.2 } from rfl, hc]
        exact connect_linked hfd
  have hthere := hcork.trans hconn
  split
  · have hlast := hthere.trans (proxyFail_linked w₃ now)
    exact hlast.trans (forgetLinked (proxyFail_fd w₃ now))
  · rename_i hok
    rw [decide_eq_true hok] at hthere
    refine ⟨hthere.trans (hc_linked w₃ _ rfl (.inl rfl)), ?_⟩
    exact (congrArg Option.isSome hfd).trans rfl

section Begun

variable {addr : List UInt8} {len : Nat} {u v : World}

theorem Begun.of_linked (h : Linked true w true v) : Begun addr len w v := by
  obtain ⟨hclient, hreply, cs, hcalls, hm⟩ := h
  exact ⟨hclient, hreply, cs, hcalls, .moves hm⟩

/-- The link is opened, and what follows are moves. -/
theorem Begun.of_opens {c : Bool} (cs : List ControlCall) (hclient : u.client = w.client)
    (hreply : u.reply = w.reply) (hcalls : u.kernel.wire.calls = w.kernel.wire.calls ++ cs)
    (hopens : LinkOpens addr len (w.link true) cs (u.link c)) (h : Linked c u true v) :
    Begun addr len w v := by
  obtain ⟨hclient', hreply', cs', hcalls', hm⟩ := h
  refine ⟨hclient'.trans hclient, Replies.trans (.inl hreply) hreply', cs ++ cs', ?_,
    .opens hopens hm⟩
  rw [hcalls', hcalls, List.append_assoc]

/-- `proxy_begin` goes on. -/
theorem Begun.trans (h : Begun addr len w u) (h' : Linked true u true v) : Begun addr len w v := by
  obtain ⟨hclient, hreply, cs, hcalls, hp⟩ := h
  obtain ⟨hclient', hreply', cs', hcalls', hm⟩ := h'
  refine ⟨hclient'.trans hclient, hreply.trans hreply', cs ++ cs', ?_, hp.trans hm⟩
  rw [hcalls', hcalls, List.append_assoc]

end Begun

/-- The calls of `proxy_begin` before its first turn. -/
theorem proxySetup_linked (w : World) (addr : List UInt8) (len now : Nat) :
    StartLinked (Begun addr len w) (proxySetup w addr len now) := by
  unfold proxySetup
  extract_lets req wrapped
  split
  · exact .of_linked (armFixed_linked w 405 now (by simp))
  split
  · exact .of_linked (armFixed_linked w 411 now (by simp))
  split
  · exact .of_opens (u := { w with wrapped := wrapped, px := beginConn w addr len [] }) []
      rfl rfl (List.append_nil _).symm (.refused _) (armFixed_linked _ 502 now (by simp))
  · rename_i hdr hrewrite
    extract_lets w₁ s
    split
    · rename_i fd pool htake
      refine .mono (fun v hv => ?_) (beginOn_linked { w₁ with pool := pool } fd true)
      refine .of_opens (u := beginWorld { w₁ with pool := pool } fd true) [] rfl rfl
        (List.append_nil _).symm ?_ hv
      exact .take (w.link true) fd pool htake
    · rename_i htake
      have hmiss : (proxyPoolTake w.pool addr len).1 = none := congrArg Prod.fst htake
      split
      · rename_i hsocket
        refine .of_opens (u := { w₁ with kernel := s.2 }) (c := true) [.socket addr none] rfl rfl
          ?_ (.failed _) (armFixed_linked _ 502 now (by simp))
        rw [← hsocket]
        rfl
      · rename_i fd hsocket
        refine .mono (fun v hv => ?_) (beginOn_linked { w₁ with kernel := s.2 } fd false)
        refine .of_opens (u := beginWorld { w₁ with kernel := s.2 } fd false)
          [.socket addr (some fd)] rfl rfl ?_ ?_ hv
        · rw [← hsocket]
          rfl
        · exact .dial (w.link true) fd hmiss

/-- `proxy_begin`. -/
theorem proxyBegin_linked {fuel : Nat} {w : World} {addr : List UInt8} {len now : Nat} {io : HttpIo}
    {v : World} (h : w.proxyBegin fuel addr len now = some (io, v)) : Begun addr len w v := by
  have hsetup := proxySetup_linked w addr len now
  unfold proxyBegin at h
  split at h
  · rename_i r hr
    rw [hr, Option.some.inj h] at hsetup
    exact hsetup
  · rename_i u hu
    rw [hu] at hsetup
    exact hsetup.1.trans (proxyPump_linked h)

end Turns

end World

end TinyServer.Proxy
