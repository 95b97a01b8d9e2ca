import TinyServer.Net.Registered
import TinyServer.Proxy.Pool

/-!
# The registration of upstream sockets

A slot notes whether its upstream socket is registered, and for what (`in_epoll`,
`armed`); idle sockets are not registered. Every move of a link keeps the notes right
(`LinkMove.wired`), because the socket leaves epoll before it is parked or replaced.
-/

set_option autoImplicit false

namespace TinyServer.Proxy

open TinyServer.Http TinyServer.Net TinyServer.Static
open TinyServer.Net.Holding

/-- What a link says about registrations is so. -/
structure Wired (reg : Nat → Option Interest) (l : Link) : Prop where
  upstream : ∀ fd, l.fd = some fd →
    reg fd = if l.inEpoll then some (upInterest l.armed) else none
  idle : ∀ e ∈ l.pool, reg e.fd = none
  out : l.fd = none → l.inEpoll = false

section Wired

variable {j n : Nat} {d : Holding Place} {calls cs : List ControlCall} {l m : Link}

/-- The upstream socket of the slot is open. -/
theorem Sound.upstream {opens : Nat → Option FdKind} (hd : Sound Place.kind n opens (d.link j l))
    {fd : Nat} (hfd : l.fd = some fd) : opens fd = some .upstream := by
  refine hd.counted.isOpen (.slot j .upstream) fd 0 ?_
  rw [link_upstream, hfd]
  rfl

/-- A call that touches no idle socket and does not give the slot another one. -/
theorem Wired.call (hw : Wired (registered calls) l) (c : ControlCall)
    (hidle : ∀ e ∈ l.pool, c.touched ≠ some e.fd)
    (hup : ∀ fd, m.fd = some fd → registered (calls ++ [c]) fd =
      if m.inEpoll then some (upInterest m.armed) else none)
    (hpool : m.pool = l.pool) (hout : m.fd = none → m.inEpoll = false) :
    Wired (registered (calls ++ [c])) m := by
  refine ⟨hup, fun e he => ?_, hout⟩
  rw [hpool] at he
  rw [registered_one, afterCtl_other (hidle e he)]
  exact hw.idle e he

/-- The step lemma. -/
theorem LinkMove.wired (h : LinkMove l cs m) (hd : Sound Place.kind n (openFds calls) (d.link j l))
    (hfresh : FreshAfter (openFds calls) cs) (hdels : DelsWork (registered calls) cs)
    (hlive : Live (registered calls) (openFds calls)) (hw : Wired (registered calls) l) :
    Wired (registered (calls ++ cs)) m := by
  -- The upstream socket is none of the idle ones.
  have hother : ∀ fd, l.fd = some fd → ∀ e ∈ l.pool, some fd ≠ some e.fd := by
    intro fd hfd e he heq
    exact (Sound.idle hd he).2 (hfd.trans heq)
  cases h with
  -- A call on something else.
  | quiet c hc hconn hepoll =>
      have htouch : c.touched = none := by
        cases c with
        | epollCtl fd op ok => exact absurd ⟨fd, op, ok, rfl⟩ hepoll
        | close fd => exact absurd rfl (hc.2 fd)
        | accept | openFile | socket | connect | cork => rfl
      rw [registered_one, afterCtl_untouched htouch]
      exact hw
  -- `EPOLL_CTL_ADD` or `EPOLL_CTL_MOD`, by what is registered.
  | arm fd io hfd =>
      refine hw.call _ (hother fd hfd) (fun fd' hfd' => ?_) rfl (fun hnone => ?_)
      · have hsame : fd' = fd := Option.some.inj (hfd'.symm.trans hfd)
        rw [hsame, registered_one]
        unfold Link.armOp
        split
        · exact Function.update_self ..
        · exact Function.update_self ..
      · rw [show l.fd = none from hnone] at hfd
        cases hfd
  -- A call that fails registers nothing.
  | armFail fd io hfd =>
      have hsame : afterCtl (registered calls) (.epollCtl fd (l.armOp io) false) =
          registered calls := by
        unfold Link.armOp
        split
        · rfl
        · rfl
      rw [registered_one, hsame]
      exact hw
  | unplug fd ok hfd hin =>
      -- The socket is registered, so the call works.
      have hok : ok = true := by
        cases ok with
        | true => rfl
        | false =>
            have hreg := hw.upstream fd hfd
            rw [hdels.1 fd rfl, hin] at hreg
            cases hreg
      refine hw.call _ (hother fd hfd) (fun fd' hfd' => ?_) rfl fun _ => rfl
      have hsame : fd' = fd := Option.some.inj (hfd'.symm.trans hfd)
      rw [hsame, hok, registered_one]
      exact Function.update_self ..
  | rename addr len armed linked hfd =>
      rw [List.append_nil]
      refine ⟨fun fd hfd' => ?_, hw.idle, hw.out⟩
      rw [show l.fd = some fd from hfd'] at hfd
      cases hfd
  | connect fd r hfd =>
      rw [registered_one, afterCtl_untouched rfl]
      exact ⟨hw.upstream, hw.idle, hw.out⟩
  -- The old socket is closed, and the new one was not open before it.
  | redial old fd hfd =>
      have hsplit : calls ++ [.close old, .socket l.addr (some fd)] =
          (calls ++ [.close old]) ++ [.socket l.addr (some fd)] := by
        rw [List.append_assoc]
        rfl
      have hlive' : Live (registered (calls ++ [.close old])) (openFds (calls ++ [.close old])) := by
        rw [registered_one, openFds_append]
        exact hlive.call nofun
      have hnew : registered (calls ++ [.close old]) fd = none := by
        apply hlive'.fresh
        rw [openFds_append]
        exact hfresh.2.1 fd rfl
      rw [hsplit, registered_one, afterCtl_untouched rfl]
      refine hw.call _ (hother old hfd) (fun fd' hfd' => ?_) rfl nofun
      rw [← Option.some.inj hfd']
      exact hnew
  | close fd hfd => exact hw.call _ (hother fd hfd) nofun rfl fun _ => rfl
  -- The parked socket was taken out of the epoll set first.
  | park fd pool hfd hin hlinked hput =>
      rw [List.append_nil]
      refine ⟨nofun, fun e he => ?_, fun _ => hin⟩
      rw [show pool = l.pool ++ [⟨fd, l.len, l.addr⟩] from proxyPoolPut_some hput] at he
      rcases List.mem_append.1 he with he | he
      · exact hw.idle e he
      · rw [List.mem_singleton.1 he]
        have hup := hw.upstream fd hfd
        rw [hin] at hup
        exact hup

/-- Only open sockets are registered. -/
theorem LinkMove.live (h : LinkMove l cs m) (hd : Sound Place.kind n (openFds calls) (d.link j l))
    (hlive : Live (registered calls) (openFds calls)) :
    Live (registered (calls ++ cs)) (openFds (calls ++ cs)) := by
  have hone : ∀ c : ControlCall, (∀ fd op ok, c = .epollCtl fd op ok → l.fd = some fd) →
      Live (registered (calls ++ [c])) (openFds (calls ++ [c])) := by
    intro c hc
    rw [registered_one, openFds_append]
    refine hlive.call fun fd op ok he => ?_
    rw [Sound.upstream hd (hc fd op ok he)]
    exact nofun
  cases h with
  | quiet c hc hconn hepoll => exact hone c fun fd op ok he => absurd ⟨fd, op, ok, he⟩ hepoll
  | arm fd io hfd | armFail fd io hfd | unplug fd ok hfd hin =>
      refine hone _ fun fd' op ok' he => ?_
      cases he
      exact hfd
  | rename | park =>
      rw [List.append_nil]
      exact hlive
  | connect | close => exact hone _ nofun
  | redial old fd hfd =>
      have hclose := hone (.close old) nofun
      have hsplit : calls ++ [.close old, .socket l.addr (some fd)] =
          (calls ++ [.close old]) ++ [.socket l.addr (some fd)] := by
        rw [List.append_assoc]
        rfl
      rw [hsplit, registered_one, openFds_append]
      exact hclose.call nofun

/-- Nothing happens to the registration of a socket in another place. -/
theorem LinkMove.untouched (h : LinkMove l cs m)
    (hd : Sound Place.kind n (openFds calls) (d.link j l)) {p : Place} {fd k : Nat}
    (hp : p ≠ .slot j .upstream) (hplace : (d.link j l).place p = some (fd, k)) :
    registered (calls ++ cs) fd = registered calls fd := by
  have hother : ∀ fd', l.fd = some fd' → some fd' ≠ some fd := by
    intro fd' hfd heq
    have hup : (d.link j l).place (.slot j .upstream) = some (fd, 0) := by
      rw [link_upstream, hfd, Option.some.inj heq]
      rfl
    exact hp (hd.counted.once _ _ fd k 0 hplace hup)
  have hone : ∀ c : ControlCall, c.touched ≠ some fd →
      registered (calls ++ [c]) fd = registered calls fd := by
    intro c hc
    rw [registered_one, afterCtl_other hc]
  cases h with
  | quiet c hc hconn hepoll =>
      refine hone c ?_
      cases c with
      | epollCtl fd op ok => exact absurd ⟨fd, op, ok, rfl⟩ hepoll
      | close fd => exact absurd rfl (hc.2 fd)
      | accept | openFile | socket | connect | cork => exact nofun
  | arm fd' io hfd | armFail fd' io hfd | unplug fd' ok hfd hin => exact hone _ (hother fd' hfd)
  | rename | park => rw [List.append_nil]
  | connect => exact hone _ nofun
  | close fd' hfd => exact hone _ (hother fd' hfd)
  | redial old fd' hfd =>
      have hsplit : calls ++ [.close old, .socket l.addr (some fd')] =
          (calls ++ [.close old]) ++ [.socket l.addr (some fd')] := by
        rw [List.append_assoc]
        rfl
      rw [hsplit, registered_one, afterCtl_untouched rfl]
      exact hone _ (hother old hfd)

/-- What the moves of a link keep about registrations. -/
structure Kept (calls : List ControlCall) (l : Link) : Prop where
  live : Live (registered calls) (openFds calls)
  wired : Wired (registered calls) l

/-- The moves of one link keep its registrations in step with its descriptors. -/
theorem LinkMoves.kept (h : LinkMoves l cs m) (hj : j < n) (hn : n ≤ UINT16_MAX)
    (hd : Sound Place.kind n (openFds calls) (d.link j l)) (hfresh : FreshAfter (openFds calls) cs)
    (hdels : DelsWork (registered calls) cs) (hk : Kept calls l) : Kept (calls ++ cs) m := by
  induction h with
  | refl =>
      rw [List.append_nil]
      exact hk
  | tail hs hm ih =>
      rw [freshAfter_append] at hfresh
      rw [delsWork_append] at hdels
      have hd' := (hs.places j d).sound hj hn hd hfresh.1
      rw [← openFds_append] at hd' hfresh
      rw [← registered_append] at hdels
      rw [← List.append_assoc]
      have hk' := ih hfresh.1 hdels.1
      exact ⟨hm.live hd' hk'.live, hm.wired hd' hfresh.2 hdels.2 hk'.live hk'.wired⟩

/-- The sockets of other slots and of clients. -/
theorem LinkMoves.untouched (h : LinkMoves l cs m) (hj : j < n) (hn : n ≤ UINT16_MAX)
    (hd : Sound Place.kind n (openFds calls) (d.link j l)) (hfresh : FreshAfter (openFds calls) cs)
    {p : Place} {fd k : Nat} (hp : p ≠ .slot j .upstream)
    (hplace : ∀ l, (d.link j l).place p = some (fd, k)) :
    registered (calls ++ cs) fd = registered calls fd := by
  induction h with
  | refl => rw [List.append_nil]
  | tail hs hm ih =>
      rw [freshAfter_append] at hfresh
      have hd' := (hs.places j d).sound hj hn hd hfresh.1
      rw [← openFds_append] at hd'
      rw [← List.append_assoc, ← ih hfresh.1]
      exact hm.untouched hd' hp (hplace _)

/-! ## The start of an exchange -/

variable {addr : List UInt8} {len : Nat}

theorem LinkOpens.kept (h : LinkOpens addr len l cs m) (hfresh : FreshAfter (openFds calls) cs)
    (hk : Kept calls l) : Kept (calls ++ cs) m := by
  have hsocket : ∀ fd, Live (registered (calls ++ [.socket addr fd]))
      (openFds (calls ++ [.socket addr fd])) := by
    intro fd
    rw [registered_one, openFds_append]
    exact hk.live.call nofun
  cases h with
  | refused =>
      rw [List.append_nil]
      exact ⟨hk.live, nofun, hk.wired.idle, fun _ => rfl⟩
  | failed =>
      refine ⟨hsocket none, nofun, ?_, fun _ => rfl⟩
      rw [registered_one, afterCtl_untouched rfl]
      exact hk.wired.idle
  | take fd pool htake =>
      rw [List.append_nil]
      refine ⟨hk.live, fun fd' hfd' => ?_, fun e he => ?_, fun _ => rfl⟩
      · obtain ⟨i, e, -, he, hfd, -, -, -⟩ := proxyPoolTake_some htake
        rw [← Option.some.inj hfd', ← hfd]
        exact hk.wired.idle e (List.mem_of_getElem? he)
      · exact hk.wired.idle e (proxyPoolTake_mem htake e he)
  | dial fd hmiss =>
      refine ⟨hsocket (some fd), fun fd' hfd' => ?_, ?_, fun _ => rfl⟩
      · rw [← Option.some.inj hfd', registered_one, afterCtl_untouched rfl]
        exact hk.live.fresh (hfresh.1 fd rfl)
      · rw [registered_one, afterCtl_untouched rfl]
        exact hk.wired.idle

/-- Opening a socket registers nothing. -/
theorem LinkOpens.untouched (h : LinkOpens addr len l cs m) (fd : Nat) :
    registered (calls ++ cs) fd = registered calls fd := by
  cases h with
  | refused | take => rw [List.append_nil]
  | failed | dial => rw [registered_one, afterCtl_untouched rfl]

/-- So does the path of a whole call of `proxy_pump`, opening included. -/
theorem LinkPath.kept (h : LinkPath addr len l cs m) (hj : j < n) (hn : n ≤ UINT16_MAX)
    (hd : Sound Place.kind n (openFds calls) (d.link j l)) (hfresh : FreshAfter (openFds calls) cs)
    (hdels : DelsWork (registered calls) cs) (hk : Kept calls l) : Kept (calls ++ cs) m := by
  cases h with
  | moves h => exact h.kept hj hn hd hfresh hdels hk
  | opens ho h =>
      rw [freshAfter_append] at hfresh
      rw [delsWork_append] at hdels
      have hd' := (ho.places j d).sound hj hn hd hfresh.1
      rw [← openFds_append] at hd' hfresh
      rw [← registered_append] at hdels
      rw [← List.append_assoc]
      exact h.kept hj hn hd' hfresh.2 hdels.2 (ho.kept hfresh.1 hk)

/-- A link's calls leave every other place's registrations as they are. -/
theorem LinkPath.untouched (h : LinkPath addr len l cs m) (hj : j < n) (hn : n ≤ UINT16_MAX)
    (hd : Sound Place.kind n (openFds calls) (d.link j l)) (hfresh : FreshAfter (openFds calls) cs)
    {p : Place} {fd k : Nat} (hp : p ≠ .slot j .upstream)
    (hplace : ∀ l, (d.link j l).place p = some (fd, k)) :
    registered (calls ++ cs) fd = registered calls fd := by
  cases h with
  | moves h => exact h.untouched hj hn hd hfresh hp hplace
  | opens ho h =>
      rw [freshAfter_append] at hfresh
      have hd' := (ho.places j d).sound hj hn hd hfresh.1
      rw [← openFds_append] at hd' hfresh
      rw [← List.append_assoc, h.untouched hj hn hd' hfresh.2 hp hplace]
      exact ho.untouched fd

end Wired

/-! ## `arm_up` -/

/-- Where `arm_up` succeeds, the upstream socket is registered for what was asked,
whether or not it had to be told. -/
theorem World.armUp_registered {calls : List ControlCall} {w : World} {io : HttpIo} {fd : Nat}
    (hfd : w.px.fd = some fd)
    (hw : Wired (registered (calls ++ w.kernel.wire.calls)) (w.link true))
    (hok : (w.armUp io).1 = true) :
    registered (calls ++ (w.armUp io).2.kernel.wire.calls) fd = some (upInterest io) := by
  by_cases hskip : w.px.inEpoll = true ∧ w.px.armed = io
  · have hsame : w.armUp io = (true, w) := by
      unfold World.armUp
      simp only [hfd, if_pos hskip]
    have hup := hw.upstream fd hfd
    rw [show (w.link true).inEpoll = true from hskip.1, if_pos rfl] at hup
    rw [hsame, hup, show (w.link true).armed = io from hskip.2]
  · have hcall : w.armUp io =
        if (w.kernel.epollCtl fd ((w.link true).armOp io)).1 then
          (true, { w with
            kernel := (w.kernel.epollCtl fd ((w.link true).armOp io)).2
            px := { w.px with inEpoll := true, armed := io } })
        else (false, { w with kernel := (w.kernel.epollCtl fd ((w.link true).armOp io)).2 }) := by
      unfold World.armUp
      simp only [hfd, if_neg hskip]
      rfl
    cases hworks : (w.kernel.epollCtl fd ((w.link true).armOp io)).1 with
    | false =>
        rw [hcall, hworks] at hok
        cases hok
    | true =>
        rw [hcall, if_pos hworks]
        show registered (calls ++ (w.kernel.wire.calls ++
          [.epollCtl fd ((w.link true).armOp io) (w.kernel.epollCtl fd ((w.link true).armOp io)).1])) fd = _
        rw [hworks, ← List.append_assoc, registered_one]
        unfold Link.armOp
        split
        · exact Function.update_self ..
        · exact Function.update_self ..

end TinyServer.Proxy
