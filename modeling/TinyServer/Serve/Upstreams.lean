import TinyServer.Proxy.Crowd
import TinyServer.Routing.Match
import TinyServer.Serve.Deeds
import TinyServer.Serve.Stale
import TinyServer.Serve.Tends

/-!
# How many upstream sockets a worker has

"One idle upstream per slot is enough: a finished request returns its fd here, and a new
request takes it." A new request takes an idle socket only where there is one to its own
address. As long as no exchange finds idle sockets to other addresses alone (`Unmixed`), a
worker has at most one upstream socket for each slot (`reachable_upstreamSockets`). With
two addresses it can have more (`twoSite_exceeds`).
-/

set_option autoImplicit false

namespace TinyServer.Serve

open TinyServer.Http TinyServer.Net TinyServer.Proxy TinyServer.Static TinyServer.Routing
open TinyServer.Lib

/-! ## One slot -/

/-- The upstream socket and the pool of the turn are those of the link. -/
structure Turn.Plugged (t : Turn) (l : Link) : Prop where
  fd : t.px.fd = l.fd
  addr : t.px.upAddr = l.addr
  len : t.px.upLen = l.len
  pool : t.pool = l.pool

/-- What the acts of a handler do to the link of its slot. -/
inductive Relinks (site : Site) (p : Point) (t : Turn) (m : Link) : Prop
  | moves (cs : List ControlCall) (h : LinkMoves t.link cs m)
  | opens (loop : Bool) (r : Route) (cs : List ControlCall) (hp : p = .routing loop)
      (hroute : t.route site = some r) (htype : r.type = .proxy)
      (h : LinkPath r.upstream r.upstreamLen t.link cs m)

section Slots

variable {site : Site} {fuel now idx : Nat} {p q : Point} {t t' : Turn}

theorem plugged_world (v : World) (proxying : Bool) :
    Turn.Plugged { t.withWorld v with proxying := proxying } (v.link true) := ⟨rfl, rfl, rfl, rfl⟩

/-- `slot_close` gives the link back. -/
theorem slotClose_relinks (idx : Nat) (t : Turn) :
    ∃ m cs, (t.slotClose idx).Plugged m ∧ LinkMoves t.link cs m := by
  cases hactive : t.active with
  | false =>
      have hsame : t.slotClose idx = t := by
        unfold Turn.slotClose
        rw [hactive]
        rfl
      rw [hsame]
      exact ⟨t.link, [], ⟨rfl, rfl, rfl, rfl⟩, .refl _⟩
  | true =>
      obtain ⟨-, -, cs, -, hm⟩ := World.proxyClose_linked (b := true) t.world
      refine ⟨t.world.proxyClose.link true, cs, ?_, hm⟩
      unfold Turn.slotClose
      rw [if_neg (by rw [hactive]; exact nofun)]
      extract_lets src t₁ t₂ hc t₃
      have ht₁ : t₁.Plugged (t.world.proxyClose.link true) := plugged_world _ false
      have ht₃ : t₃.px = t₁.px ∧ t₃.pool = t₁.pool := by
        unfold t₃
        split
        · exact ⟨rfl, rfl⟩
        · exact ⟨rfl, rfl⟩
      refine ⟨?_, ?_, ?_, ?_⟩
      · exact (congrArg ProxyConn.fd ht₃.1).trans ht₁.fd
      · exact (congrArg ProxyConn.upAddr ht₃.1).trans ht₁.addr
      · exact (congrArg ProxyConn.upLen ht₃.1).trans ht₁.len
      · exact ht₃.2.trans ht₁.pool

theorem armEvents_relinks (idx : Nat) (io : HttpIo) (t : Turn) :
    ∃ m cs, (t.armEvents idx io).Plugged m ∧ LinkMoves t.link cs m := by
  have hstill : ∀ u : Turn, u.px = t.px → u.pool = t.pool →
      ∃ m cs, u.Plugged m ∧ LinkMoves t.link cs m := by
    intro u hpx hpool
    refine ⟨t.link, [], ⟨?_, ?_, ?_, hpool⟩, .refl _⟩
    · exact congrArg ProxyConn.fd hpx
    · exact congrArg ProxyConn.upAddr hpx
    · exact congrArg ProxyConn.upLen hpx
  unfold Turn.armEvents
  split
  · exact hstill t rfl rfl
  split
  · extract_lets r
    split
    · exact hstill _ rfl rfl
    · exact slotClose_relinks idx { t with kernel := r.2 }
  · exact slotClose_relinks idx t

theorem Deed.relinks (h : Deed site idx p t t') : ∃ m, t'.Plugged m ∧ Relinks site p t m := by
  cases h with
  | aloof _ ha =>
      refine ⟨t.link, ⟨?_, ?_, ?_, ha.pool⟩, .moves [] (.refl _)⟩
      · exact congrArg ProxyConn.fd ha.px
      · exact congrArg ProxyConn.upAddr ha.px
      · exact congrArg ProxyConn.upLen ha.px
  | close =>
      obtain ⟨m, cs, hm, hmoves⟩ := slotClose_relinks idx t
      exact ⟨m, hm, .moves cs hmoves⟩
  | arm io hactive =>
      obtain ⟨m, cs, hm, hmoves⟩ := armEvents_relinks idx io t
      exact ⟨m, hm, .moves cs hmoves⟩
  | pump v proxying hactive hl =>
      obtain ⟨-, -, cs, -, hmoves⟩ := hl
      exact ⟨v.link true, plugged_world v proxying, .moves cs hmoves⟩
  | proxy loop r v proxying hp hactive hroute htype hl =>
      obtain ⟨-, -, cs, -, hpath⟩ := hl
      exact ⟨v.link true, plugged_world v proxying, .opens loop r cs hp hroute htype hpath⟩

/-- An exchange that finds no idle socket to its address finds none at all. -/
def Unmixed (site : Site) (p : Point) (t : Turn) : Prop :=
  ∀ loop r, p = .routing loop → t.route site = some r → r.type = .proxy →
    (proxyPoolTake t.pool r.upstream r.upstreamLen).1 = none → t.pool = []

/-- No act on an unmixed slot adds a second upstream socket. -/
theorem Act.sockets_le (h : Act site fuel now idx (p, t) (q, t')) (hs : Stance p t)
    (hunmixed : Unmixed site p t) :
    sockets t'.px.fd t'.pool ≤ max (sockets t.px.fd t.pool) 1 := by
  obtain ⟨m, hm, hlink⟩ := (h.deed hs).relinks
  rw [hm.fd, hm.pool]
  cases hlink with
  | moves cs h => exact h.sockets_le.trans (Nat.le_max_left _ _)
  | opens loop r cs hp hroute htype h => exact h.sockets_le (hunmixed loop r hp hroute htype)

/-- A handler leaves no more sockets than it found, or one. -/
theorem ActsIn.sockets_le (h : ActsIn site fuel now idx (Unmixed site) (.rest, t) (q, t'))
    (hfit : t.Fit) : sockets t'.px.fd t'.pool ≤ max (sockets t.px.fd t.pool) 1 := by
  have hboth := h.invariant
    (I := fun r u => Stance r u ∧ sockets u.px.fd u.pool ≤ max (sockets t.px.fd t.pool) 1)
    (fun r u r' u' hok hact hi => ?_) ⟨.at_rest hfit, Nat.le_max_left _ _⟩
  · exact hboth.2
  · refine ⟨(hact.goes hi.1).1, (hact.sockets_le hi.1 hok).trans ?_⟩
    exact max_le hi.2 (Nat.le_max_right _ _)

end Slots

/-! ## One upstream address -/

/-- All proxy routes have the same upstream address. -/
def OneUpstream (site : Site) (addr : List UInt8) (len : Nat) : Prop :=
  ∀ r ∈ site.routes, r.type = .proxy → r.upstreamLen = len ∧ r.upstream.take len = addr.take len

section OneUpstream

variable {site : Site} {addr : List UInt8} {len : Nat} {fuel now idx : Nat} {p q : Point}
  {t t' : Turn}

theorem unmixed_of_onlyFor (hone : OneUpstream site addr len) (ht : OnlyFor addr len t.link)
    (p : Point) : Unmixed site p t := by
  intro loop r hp hroute htype hmiss
  obtain ⟨hlen, hup⟩ := hone r (routeMatch_mem hroute).1 htype
  by_contra hne
  obtain ⟨e, he⟩ := List.exists_mem_of_ne_nil t.pool hne
  obtain ⟨helen, hpos, headdr⟩ := ht.idle e he
  have hmatch := proxyPoolTake_none he hmiss
  unfold addrEq at hmatch
  rw [helen, hlen, headdr, hup, beq_self_eq_true, beq_self_eq_true, decide_eq_true hpos] at hmatch
  cases hmatch

theorem Act.onlyFor (hone : OneUpstream site addr len) (h : Act site fuel now idx (p, t) (q, t'))
    (hs : Stance p t) (ht : OnlyFor addr len t.link) : OnlyFor addr len t'.link := by
  obtain ⟨m, hm, hlink⟩ := (h.deed hs).relinks
  have hlast : OnlyFor addr len m := by
    cases hlink with
    | moves cs h => exact h.onlyFor ht
    | opens loop r cs hp hroute htype h =>
        obtain ⟨hlen, hup⟩ := hone r (routeMatch_mem hroute).1 htype
        rw [hlen] at h
        exact h.onlyFor hup ht
  refine ⟨fun fd hfd => ?_, fun e he => hlast.idle e (hm.pool ▸ he)⟩
  obtain ⟨hlen, haddr⟩ := hlast.own fd (hm.fd.symm.trans hfd)
  refine ⟨hm.len.trans hlen, ?_⟩
  rw [show t'.link.addr = m.addr from hm.addr]
  exact haddr

namespace Worker

variable {n : Nat} {w w' : Worker}

/-- All sockets of the worker are for the address. -/
structure OneAddress (addr : List UInt8) (len : Nat) (w : Worker) : Prop where
  slots : ∀ s ∈ w.slots, ∀ fd, s.px.fd = some fd →
    s.px.upLen = len ∧ s.px.upAddr.take len = addr.take len
  idle : ∀ e ∈ w.pool, e.len = len ∧ 0 < len ∧ e.addr.take len = addr.take len

theorem store_oneAddress {t : Turn} (j : Nat) (hw : OneAddress addr len w)
    (ht : OnlyFor addr len t.link) : OneAddress addr len (w.store j t) := by
  refine ⟨fun s hs fd hfd => ?_, ht.idle⟩
  rcases List.mem_or_eq_of_mem_set hs with hs | rfl
  · exact hw.slots s hs fd hfd
  · exact ht.own fd hfd

/-- With one address in the table, every link and idle socket is for it. -/
theorem Tend.oneAddress (hone : OneUpstream site addr len) (hr : Regular n w)
    (h : Tend site fuel anyState w w') (hw : OneAddress addr len w) :
    Tend site fuel (Unmixed site) w w' ∧ OneAddress addr len w' := by
  have hacts : ∀ {now idx : Nat} {t t' : Turn}, t.Fit → OnlyFor addr len t.link →
      ActsIn site fuel now idx anyState (.rest, t) (.rest, t') →
        ActsIn site fuel now idx (Unmixed site) (.rest, t) (.rest, t') ∧
          OnlyFor addr len t'.link := by
    intro now idx t t' hfit ht h
    have hact : ∀ p u q u', Act site fuel now idx (p, u) (q, u') →
        Stance p u ∧ OnlyFor addr len u.link → Stance q u' ∧ OnlyFor addr len u'.link :=
      fun p u q u' hact hi => ⟨(hact.goes hi.1).1, hact.onlyFor hone hi.1 hi.2⟩
    have hstart : Stance .rest t ∧ OnlyFor addr len t.link := ⟨.at_rest hfit, ht⟩
    exact ⟨h.acts.within (fun p u hi => unmixed_of_onlyFor hone hi.2 p) hact hstart,
      (h.acts.invariant (I := fun p u => Stance p u ∧ OnlyFor addr len u.link) hact hstart).2⟩
  cases h with
  | stale fd => exact ⟨.stale w fd, hw.slots, hw.idle⟩
  | reject fd now idx free s sched disk hfree hs =>
      have ht := rejected_spec fd now sched disk hfree s
      refine ⟨.reject w fd now idx free s sched disk hfree hs, store_oneAddress idx hw ⟨?_, ?_⟩⟩
      · intro fd' hfd
        exact absurd (ht.upstream.symm.trans hfd) nofun
      · intro e he
        exact hw.idle e (ht.pool ▸ he)
  | enter fd now idx free s sched disk t hfree hs hwatched h =>
      have henter := admitted_enters fd now sched disk hr.fit hfree hs
      obtain ⟨hin, ht⟩ := hacts henter.fit ⟨nofun, hw.idle⟩ h
      exact ⟨.enter w fd now idx free s sched disk t hfree hs hwatched hin,
        store_oneAddress idx hw ht⟩
  | handle now idx s sched disk t hs hactive h =>
      have henter := load_enters sched disk hr.fit hs hactive
      obtain ⟨hin, ht⟩ := hacts henter.fit
        ⟨fun fd hfd => hw.slots s (List.mem_of_getElem? hs) fd hfd, hw.idle⟩ h
      exact ⟨.handle w now idx s sched disk t hs hactive hin, store_oneAddress idx hw ht⟩

/-- Where all proxy routes have the same upstream address, every run is unmixed. -/
theorem oneUpstream_through (hone : OneUpstream site addr len) (fuel n : Nat) (as : List Action) :
    AllSteps (Worker.step site fuel) (Through site fuel (Unmixed site)) (Worker.start n) as := by
  refine through_of_invariant (K := OneAddress addr len) ⟨fun s hs fd hfd => ?_, nofun⟩
    (fun w w' hr h hw => h.oneAddress hone hr hw) (fun w _ _ hw => ⟨hw.slots, nofun⟩) as
  rw [List.eq_of_mem_replicate hs] at hfd
  cases hfd

end Worker

end OneUpstream

/-! ## The worker -/

namespace Worker

/-- The idle sockets and the upstream sockets of slots. -/
def upstreamSockets (w : Worker) : Nat :=
  w.pool.length + w.slots.countP fun s => s.px.fd.isSome

section Worker

variable {site : Site} {fuel n j : Nat} {w w' : Worker} {s : Slot} {t : Turn}

/-- A slot is one of `n`: with at most one socket of its own, and no more for it and the
pool than before, there are at most `n`. -/
theorem store_upstreamSockets (hcount : w.slots.length = n) (hs : w.slots[j]? = some s)
    (ht : sockets t.px.fd t.pool ≤ max (sockets s.px.fd w.pool) 1)
    (hw : w.upstreamSockets ≤ n) : (w.store j t).upstreamSockets ≤ n := by
  obtain ⟨hlt, hget⟩ := List.getElem?_eq_some_iff.1 hs
  have hlive : ∀ fd : Option Nat, fd.toList.length = if fd.isSome then 1 else 0 := by
    intro fd
    cases fd with
    | none => rfl
    | some fd => rfl
  have hothers : (w.slots.countP fun s => s.px.fd.isSome) -
      (if s.px.fd.isSome then 1 else 0) < n := by
    split
    · have hle := List.countP_le_length (p := fun s : Slot => s.px.fd.isSome) (l := w.slots)
      omega
    · rename_i hnone
      have hne : (w.slots.countP fun s => s.px.fd.isSome) ≠ w.slots.length := by
        intro hall
        exact hnone (List.countP_eq_length.1 hall s (List.mem_of_getElem? hs))
      have hle := List.countP_le_length (p := fun s : Slot => s.px.fd.isSome) (l := w.slots)
      omega
  have hpos : s.px.fd.isSome = true → 0 < w.slots.countP fun s => s.px.fd.isSome :=
    fun hsome => List.countP_pos_iff.2 ⟨s, List.mem_of_getElem? hs, hsome⟩
  show t.pool.length + (w.slots.set j (slotOf t)).countP _ ≤ n
  rw [List.countP_set hlt, hget]
  show t.pool.length + (_ - (if s.px.fd.isSome = true then 1 else 0) +
    if t.px.fd.isSome = true then 1 else 0) ≤ n
  unfold upstreamSockets at hw
  unfold sockets at ht
  rw [hlive, hlive] at ht
  split at hothers
  · rename_i hsome
    have := hpos hsome
    rw [if_pos hsome] at ht ⊢
    omega
  · rename_i hnone
    rw [if_neg hnone] at ht ⊢
    omega

/-- The step lemma. -/
theorem Tend.upstreamSockets_le (hr : Regular n w) (h : Tend site fuel (Unmixed site) w w')
    (hw : w.upstreamSockets ≤ n) : w'.upstreamSockets ≤ n := by
  cases h with
  | stale fd => exact hw
  | reject fd now idx free s sched disk hfree hs =>
      have ht := rejected_spec fd now sched disk hfree s
      refine store_upstreamSockets hr.fit.count hs ?_ hw
      rw [ht.upstream, ht.pool]
      exact (Nat.add_le_add_left (Nat.zero_le _) _).trans (Nat.le_max_left _ _)
  | enter fd now idx free s sched disk t hfree hs hwatched h =>
      have henter := admitted_enters fd now sched disk hr.fit hfree hs
      refine store_upstreamSockets hr.fit.count hs ((h.sockets_le henter.fit).trans ?_) hw
      refine max_le_max_right 1 ?_
      exact Nat.add_le_add_left (Nat.zero_le _) _
  | handle now idx s sched disk t hs hactive h =>
      have henter := load_enters sched disk hr.fit hs hactive
      exact store_upstreamSockets hr.fit.count hs (h.sockets_le henter.fit) hw

/-- As long as every exchange that finds no idle socket to its upstream address finds no
idle socket at all, a worker has at most one upstream socket for each of its slots. -/
theorem reachable_upstreamSockets (site : Site) (fuel n : Nat) (as : List Action)
    (hall : AllSteps (Worker.step site fuel) (Through site fuel (Unmixed site)) (Worker.start n) as) :
    ∀ w ∈ runStates (Worker.step site fuel) (Worker.start n) as, w.upstreamSockets ≤ n := by
  refine through_invariant ?_ (fun w w' hr h hw => h.upstreamSockets_le hr hw)
    (fun w hr hoff hw => ?_) hall
  · show 0 + (List.replicate n Slot.unused).countP _ ≤ n
    rw [List.countP_replicate]
    exact Nat.zero_le n
  · exact (Nat.add_le_add_right (Nat.zero_le _) _).trans hw

end Worker

end Worker

/-- A kept connection: its exchange is over, and the idle socket is the only one. -/
theorem reachable_upstreamSockets_idle : ∃ w ∈ runStates (Worker.step proxySite 20)
    (Worker.start 1) (staleRun.take 3), w.pool.length = 1 ∧ w.upstreamSockets ≤ 1 := by
  have hone : OneUpstream proxySite [1] 1 := by
    intro r hr _
    rw [List.mem_singleton.1 hr]
    exact ⟨rfl, rfl⟩
  obtain ⟨w, hw, hidle⟩ := exists_of_run (p := fun w : Worker => w.pool.length = 1)
    (show (runTo (Worker.step proxySite 20) (Worker.start 1) (staleRun.take 3)).any _ = true by
      decide +kernel)
  have hall := Worker.oneUpstream_through hone 20 1 (staleRun.take 3)
  exact ⟨w, hw, hidle, Worker.reachable_upstreamSockets proxySite 20 1 (staleRun.take 3) hall w hw⟩

/-- Two upstream addresses. -/
def twoSite : Site where
  routes := [⟨.proxy, false, false, none, cstr "/", cstr "up", [1], 1⟩,
    ⟨.proxy, false, false, none, cstr "/b", cstr "up", [2], 1⟩]
  docroot := none
  allowDotfiles := false

/-- A connection whose first request is for the first upstream. -/
def askFirst (fd : Nat) : Action :=
  .accept (some fd) 0 0 { Schedule.quiet with
      clientReads := [.data (cstr "GET / HTTP/1.1\r\nHost: a\r\n\r\n")]
      sockets := [some (fd + 1000)]
      upstreamSends := [.sent 99] } .quiet

/-- All slots ask the first upstream; one is answered, and then asks the second. -/
def crowdedRun : List Action :=
  (List.range 128).map askFirst ++
    [.event ⟨true, 0, true, false, false⟩ 1 { Schedule.quiet with
      upstreamReads := [.data (cstr "HTTP/1.1 200 OK\r\nContent-Length: 1\r\n\r\nx")]
      clientSends := [.sent 99] } .quiet,
    .event ⟨false, 0, true, false, false⟩ 2 { Schedule.quiet with
      clientReads := [.data (cstr "GET /b HTTP/1.1\r\nHost: a\r\n\r\n")]
      sockets := [some 5000]
      upstreamSends := [.sent 99] } .quiet]

/-- With two upstream addresses a worker of 128 slots has 129 upstream sockets. -/
theorem twoSite_exceeds : ¬ ∀ w ∈ runStates (Worker.step twoSite 20) (Worker.start 128) crowdedRun,
    w.upstreamSockets ≤ 128 := by
  obtain ⟨w, hw, hmany⟩ := exists_of_run (p := fun w : Worker => 128 < w.upstreamSockets)
    (show (runTo (Worker.step twoSite 20) (Worker.start 128) crowdedRun).any _ = true by
      decide +kernel)
  exact fun hall => absurd (hall w hw) (not_le.2 hmany)

end TinyServer.Serve
