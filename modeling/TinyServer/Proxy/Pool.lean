import TinyServer.Proxy.Links
import TinyServer.Static.Moves

/-!
# The idle pool as places

The entries of the pool are numbered places, and so is the upstream socket of a slot.
Each move of a link is a sequence of moves between these places: an entry that is taken
leaves its place to the last entry, and a parked socket gets a place of its own.
-/

set_option autoImplicit false

namespace TinyServer.Proxy

open TinyServer.Net TinyServer.Static
open TinyServer.Net.Holding

/-! ## Taking an entry -/

/-- The entry that `proxy_pool_take` gives is one of the pool, and the last entry gets its
place. -/
theorem proxyPoolTake_some {pool pool' : List ProxyIdle} {addr : List UInt8} {len fd : Nat}
    (h : proxyPoolTake pool addr len = (some fd, pool')) :
    ∃ i e last, pool[i]? = some e ∧ e.fd = fd ∧ addrEq e.addr e.len addr len = true ∧
      pool.getLast? = some last ∧ pool' = (pool.set i last).dropLast := by
  unfold proxyPoolTake at h
  simp only at h
  split at h
  · cases h
  · rename_i i hi
    split at h
    · rename_i e last he hlast
      have hmem := List.mem_of_getLast? hi
      have hmatch := (List.mem_filter.1 hmem).2
      rw [he] at hmatch
      refine ⟨i, e, last, he, ?_, hmatch, hlast, ?_⟩
      · exact Option.some.inj (congrArg Prod.fst h)
      · exact (congrArg Prod.snd h).symm
    · cases h

/-- What is put into the pool is put at its end. -/
theorem proxyPoolPut_some {pool pool' : List ProxyIdle} {fd len : Nat} {addr : List UInt8}
    (h : proxyPoolPut pool fd addr len = some pool') :
    pool' = pool ++ [⟨fd, len, addr⟩] := by
  unfold proxyPoolPut at h
  split at h
  · cases h
  · exact (Option.some.inj h).symm

/-- What stands in each place after the last entry took the place `i`. -/
theorem swapRemove_get {α : Type} {pool : List α} {i : Nat} {e : α} (last : α)
    (he : pool[i]? = some e) (n : Nat) : ((pool.set i last).dropLast)[n]? =
      if n + 1 = pool.length then none else if n = i then some last else pool[n]? := by
  have hlt : i < pool.length := (List.getElem?_eq_some_iff.1 he).1
  rw [List.getElem?_dropLast, List.length_set]
  by_cases hn : n + 1 = pool.length
  · rw [if_pos hn, if_neg (by omega)]
  rw [if_neg hn]
  by_cases hin : n = i
  · rw [if_pos hin, hin, List.getElem?_set_self hlt, if_pos (by omega)]
  · rw [if_neg hin, List.getElem?_set_ne (Ne.symm hin)]
    split
    · rfl
    · exact (List.getElem?_eq_none (by omega)).symm

/-! ## The places of a link -/

/-- What stands in the place `n` of a pool. -/
def idlePlace (pool : List ProxyIdle) (n : Nat) : Option (Nat × Nat) :=
  pool[n]?.map fun e => (e.fd, 0)

end TinyServer.Proxy

namespace TinyServer.Net.Holding

open TinyServer.Proxy TinyServer.Static

/-- The descriptors `d` with the link `l` of the slot `j`. -/
def link (d : Holding Place) (j : Nat) (l : Link) : Holding Place where
  place
    | .idle n => idlePlace l.pool n
    | .slot k .upstream =>
        -- the slot's own place follows the link, every other place is that of `d`
        if k = j then l.fd.map fun fd => (fd, 0) else d.place (.slot k .upstream)
    | .slot k .client => d.place (.slot k .client)
    | .slot k .own => d.place (.slot k .own)
    | .slot k .opened => d.place (.slot k .opened)
    | .cached i => d.place (.cached i)
    | .retired i => d.place (.retired i)
  held := d.held
  dropped := d.dropped

variable (d : Holding Place) (j : Nat) (l : Link)

/-- The place of the upstream socket. -/
theorem link_upstream : (d.link j l).place (.slot j .upstream) = l.fd.map fun fd => (fd, 0) :=
  if_pos rfl

/-- The upstream socket of a slot changes. -/
theorem link_fd (fd : Option Nat) : (d.link j l).put (.slot j .upstream)
    (fd.map fun fd => (fd, 0)) = d.link j { l with fd := fd } := by
  refine eq_of (fun p => ?_) (fun _ => rfl) rfl
  by_cases hp : p = .slot j .upstream
  · rw [hp, put_place_self, link_upstream]
  · rw [put_place_ne _ _ hp]
    cases p with
    | slot k part =>
        cases part with
        | upstream =>
            have hk : k ≠ j := fun he => hp (by rw [he])
            exact (if_neg hk).trans (if_neg hk).symm
        | client | own | opened => rfl
    | cached | retired | idle => rfl

/-- Only the pool and the upstream socket matter. -/
theorem link_congr {m : Link} (hfd : m.fd = l.fd) (hpool : m.pool = l.pool) :
    d.link j m = d.link j l := by
  unfold link
  rw [hfd, hpool]

/-- The pool changes. -/
theorem link_pool {e : Holding Place} (pool : List ProxyIdle)
    (hidle : ∀ n, e.place (.idle n) = idlePlace pool n)
    (hrest : ∀ p, (∀ n, p ≠ .idle n) → e.place p = (d.link j l).place p)
    (hheld : e.held = d.held) (hdropped : e.dropped = d.dropped) :
    e = d.link j { l with pool := pool } := by
  refine eq_of (fun p => ?_) (fun k => ?_) hdropped
  · cases p with
    | idle n => exact hidle n
    | slot k part =>
        rw [hrest (.slot k part) nofun]
        cases part <;> rfl
    | cached i => exact hrest _ nofun
    | retired i => exact hrest _ nofun
  · rw [hheld]
    rfl

end TinyServer.Net.Holding

namespace TinyServer.Proxy

open TinyServer.Net TinyServer.Static
open TinyServer.Net.Holding

section Moves

variable {l m : Link} {cs : List ControlCall} (j : Nat) (d : Holding Place)

/-- A socket is parked. -/
theorem park_moves {fd : Nat} {pool : List ProxyIdle} (hfd : l.fd = some fd)
    (hput : proxyPoolPut l.pool fd l.addr l.len = some pool) :
    PlaceMove j (d.link j l) [] (d.link j { l with fd := none, pool := pool }) := by
  have hpool := proxyPoolPut_some hput
  have hfree : (d.link j l).place (.idle l.pool.length) = none := by
    show (l.pool[l.pool.length]?).map _ = none
    rw [List.getElem?_eq_none (Nat.le_refl _)]
    rfl
  have hm : PlaceMove j (d.link j l) _ _ :=
    .move _ (.slot j .upstream) (.idle l.pool.length) hfree rfl
  rw [link_upstream, hfd] at hm
  refine Eq.subst (motive := fun x => PlaceMove j _ _ x) ?_ hm
  rw [put_comm _ _ _ (by exact nofun)]
  have hnone := link_fd d j l none
  rw [Option.map_none] at hnone
  rw [hnone]
  refine link_pool d j { l with fd := none } pool (fun n => ?_) (fun p hp => ?_) rfl rfl
  · unfold idlePlace
    by_cases hn : n = l.pool.length
    · rw [hn, put_place_self, hpool, List.getElem?_concat_length]
      rfl
    · rw [put_place_ne _ _ (fun he => hn (Place.idle.inj he))]
      show (l.pool[n]?).map _ = _
      rw [hpool]
      by_cases hlt : n < l.pool.length
      · rw [List.getElem?_append_left hlt]
      · rw [List.getElem?_eq_none (by omega), List.getElem?_eq_none (by
          rw [List.length_append, List.length_singleton]
          omega)]
  · exact put_place_ne _ _ (hp _)

/-- An entry is taken: the last entry moves to its place. -/
theorem take_moves {fd : Nat} {pool : List ProxyIdle} {addr : List UInt8} {len : Nat}
    (hfd : l.fd = none) (htake : proxyPoolTake l.pool addr len = (some fd, pool)) :
    PlaceMoves j (d.link j l) [] (d.link j { l with fd := some fd, pool := pool }) := by
  obtain ⟨i, e, last, he, rfl, -, hlast, hpool⟩ := proxyPoolTake_some htake
  have hplace : (d.link j l).place (.idle i) = some (e.fd, 0) := by
    show (l.pool[i]?).map _ = _
    rw [he]
    rfl
  have hup : (d.link j l).place (.slot j .upstream) = none := by
    rw [link_upstream, hfd]
    rfl
  -- The descriptor goes from its idle place to the slot, which leaves a hole in the pool.
  have hm : PlaceMove j (d.link j l) _ _ := .move _ (.idle i) (.slot j .upstream) hup rfl
  rw [hplace] at hm
  have hfd' := link_fd d j l (some e.fd)
  rw [Option.map_some] at hfd'
  rw [hfd'] at hm
  have hlen : 0 < l.pool.length := Nat.lt_of_le_of_lt (Nat.zero_le i)
    (List.getElem?_eq_some_iff.1 he).1
  have hget := swapRemove_get last he
  rw [← hpool] at hget
  by_cases hi : i + 1 = l.pool.length
  · -- The entry taken was the last one.
    show PlaceMoves j _ ([] ++ []) _
    refine hm.moves.trans ?_
    have heq : (d.link j { l with fd := some e.fd }).put (.idle i) none =
        d.link j { l with fd := some e.fd, pool := pool } := by
      refine link_pool d j { l with fd := some e.fd } pool (fun n => ?_) (fun p hp => ?_) rfl rfl
      · by_cases hn : n = i
        · rw [hn, put_place_self]
          unfold idlePlace
          rw [hget, if_pos hi]
          rfl
        · rw [put_place_ne _ _ (fun he => hn (Place.idle.inj he))]
          unfold idlePlace
          rw [hget, if_neg (by omega), if_neg hn]
          rfl
      · exact put_place_ne _ _ (hp _)
    rw [heq]
    exact .refl _
  -- The last entry is moved into the hole.
  · have hne : l.pool.length - 1 ≠ i := by omega
    show PlaceMoves j _ ([] ++ []) _
    refine hm.moves.trans ?_
    have hfree : ((d.link j { l with fd := some e.fd }).put (.idle i) none).place (.idle i) = none :=
      put_place_self _ _ _
    have hm' : PlaceMove j ((d.link j { l with fd := some e.fd }).put (.idle i) none) _ _ :=
      .move _ (.idle (l.pool.length - 1)) (.idle i) hfree rfl
    refine Eq.subst (motive := fun x => PlaceMoves j _ _ x) ?_ hm'.moves
    have hlast' : ((d.link j { l with fd := some e.fd }).put (.idle i) none).place
        (.idle (l.pool.length - 1)) = some (last.fd, 0) := by
      rw [put_place_ne _ _ (fun he => hne (Place.idle.inj he))]
      show (l.pool[l.pool.length - 1]?).map _ = _
      rw [← List.getLast?_eq_getElem?, hlast]
      rfl
    rw [hlast', put_put]
    refine link_pool d j { l with fd := some e.fd } pool (fun n => ?_) (fun p hp => ?_) rfl rfl
    · unfold idlePlace
      rw [hget]
      by_cases hn : n + 1 = l.pool.length
      · rw [if_pos hn, show n = l.pool.length - 1 by omega, put_place_self]
        rfl
      · rw [if_neg hn, put_place_ne _ _ (fun he => hn (by
          have := Place.idle.inj he
          omega))]
        by_cases hin : n = i
        · rw [if_pos hin, hin, put_place_self]
          rfl
        · rw [if_neg hin, put_place_ne _ _ (fun he => hin (Place.idle.inj he))]
          rfl
    · rw [put_place_ne _ _ (hp _), put_place_ne _ _ (hp _)]

/-- The upstream socket of a slot is closed. -/
theorem close_moves {fd : Nat} (hfd : l.fd = some fd) :
    PlaceMove j (d.link j l) [.close fd] (d.link j { l with fd := none }) := by
  have hplace : (d.link j l).place (.slot j .upstream) = some (fd, 0) := by
    rw [link_upstream, hfd]
    rfl
  have hm : PlaceMove j (d.link j l) _ _ := .close _ (.slot j .upstream) fd hplace
  have hnone := link_fd d j l none
  rw [Option.map_none] at hnone
  rw [hnone] at hm
  exact hm

/-- A slot gets a new upstream socket. -/
theorem dial_moves (l : Link) (fd : Nat) (addr : List UInt8) (hfd : l.fd = none) :
    PlaceMove j (d.link j l) [.socket addr (some fd)] (d.link j { l with fd := some fd }) := by
  have hfree : (d.link j l).place (.slot j .upstream) = none := by
    rw [link_upstream, hfd]
    rfl
  have hm : PlaceMove j (d.link j l) _ _ :=
    .bring _ (.socket addr (some fd)) (.slot j .upstream) fd ⟨rfl, fun _ => rfl⟩ hfree
  have hsome := link_fd d j l (some fd)
  rw [Option.map_some] at hsome
  rw [hsome] at hm
  exact hm

/-- Only the pool and the upstream socket matter. -/
theorem moves_congr {x : Holding Place} (h : PlaceMoves j x cs (d.link j l)) (hfd : m.fd = l.fd)
    (hpool : m.pool = l.pool) : PlaceMoves j x cs (d.link j m) := by
  rw [link_congr d j l hfd hpool]
  exact h

/-- Each move of a link is a sequence of moves between places. -/
theorem LinkMove.places (h : LinkMove l cs m) : PlaceMoves j (d.link j l) cs (d.link j m) := by
  cases h with
  | quiet c hc hconn hepoll => exact (Move.quiet _ c hc).moves
  | arm fd io hfd =>
      exact moves_congr j d (Move.quiet _ (.epollCtl fd _ true) ⟨rfl, nofun⟩).moves rfl rfl
  | armFail fd io hfd => exact (Move.quiet _ (.epollCtl fd _ false) ⟨rfl, nofun⟩).moves
  | unplug fd ok hfd hin =>
      exact moves_congr j d (Move.quiet _ (.epollCtl fd .del ok) ⟨rfl, nofun⟩).moves rfl rfl
  | rename addr len armed linked hfd =>
      exact moves_congr j d (.refl (d.link j l)) rfl rfl
  | connect fd r hfd =>
      exact moves_congr j d (Move.quiet _ (.connect fd l.addr r) ⟨rfl, nofun⟩).moves rfl rfl
  | redial old fd hfd =>
      have hclose := (close_moves j d hfd).moves
      have hdial := (dial_moves j d { l with fd := none } fd l.addr rfl).moves
      exact moves_congr j d (hclose.trans hdial) rfl rfl
  | close fd hfd =>
      exact moves_congr j d (close_moves j d hfd).moves rfl rfl
  | park fd pool hfd hin hlinked hput => exact (park_moves j d hfd hput).moves

/-- The moves of a link move descriptors between places. -/
theorem LinkMoves.places (h : LinkMoves l cs m) : PlaceMoves j (d.link j l) cs (d.link j m) := by
  induction h with
  | refl => exact .refl _
  | tail _ hm ih => exact ih.trans (hm.places j d)

/-- What a slot had is forgotten, and it gets its socket from the pool or a new one. -/
theorem LinkOpens.places {addr : List UInt8} {len : Nat} (h : LinkOpens addr len l cs m) :
    PlaceMoves j (d.link j l) cs (d.link j m) := by
  have haim : PlaceMoves j (d.link j l) [] (d.link j (l.aim addr len)) := by
    have hm : PlaceMove j (d.link j l) _ _ := .forget _ (.slot j .upstream) rfl
    have hnone := link_fd d j l none
    rw [Option.map_none] at hnone
    rw [hnone] at hm
    exact moves_congr j d hm.moves rfl rfl
  cases h with
  | refused => exact haim
  | failed => exact haim.trans (Move.quiet _ (.socket addr none) ⟨rfl, nofun⟩).moves
  | take fd pool htake =>
      have hm := take_moves (l := l.aim addr len) j d rfl htake
      exact moves_congr j d (haim.trans hm) rfl rfl
  | dial fd hmiss =>
      have hm := dial_moves j d (l.aim addr len) fd addr rfl
      exact moves_congr j d (haim.trans hm.moves) rfl rfl

/-- So does a call. -/
theorem LinkPath.places {addr : List UInt8} {len : Nat} (h : LinkPath addr len l cs m) :
    PlaceMoves j (d.link j l) cs (d.link j m) := by
  cases h with
  | moves h => exact h.places j d
  | opens ho h => exact (ho.places j d).trans (h.places j d)

end Moves

/-! ## Who is at the other end -/

/-- The socket `fd` was connected to the address in the first `len` bytes of `addr`. -/
def Peer (calls : List ControlCall) (fd : Nat) (addr : List UInt8) (len : Nat) : Prop :=
  ∃ a, connectedTo fd calls = some a ∧ a.take len = addr.take len

/-- Every idle socket was connected to the address that its entry records, and so was a
connected upstream socket. -/
structure PeersOk (calls : List ControlCall) (l : Link) : Prop where
  pool : ∀ e ∈ l.pool, Peer calls e.fd e.addr e.len
  upstream : ∀ fd, l.fd = some fd → l.linked = true → Peer calls fd l.addr l.len

section Peers

variable {calls cs : List ControlCall} {l m : Link}

/-- The address that a socket is connected to, after one more call. -/
theorem connectedTo_append (fd : Nat) (cs : List ControlCall) (c : ControlCall) :
    connectedTo fd (cs ++ [c]) = match c with
      | .socket _ fd' => if fd' = some fd then none else connectedTo fd cs
      | .connect fd' addr result =>
          if fd' = fd ∧ result ≠ .error then some addr else connectedTo fd cs
      | _ => connectedTo fd cs := by
  unfold connectedTo
  rw [List.foldl_append]
  rfl

theorem connectedTo_quiet (fd : Nat) {c : ControlCall} (hc : c.Quiet) (hconn : ¬ IsConnect c) :
    connectedTo fd (calls ++ [c]) = connectedTo fd calls := by
  rw [connectedTo_append]
  cases c with
  | socket addr fd' =>
      have hnone : fd' = none := hc.1
      rw [hnone]
      exact if_neg nofun
  | connect fd' addr r => exact absurd ⟨fd', addr, r, rfl⟩ hconn
  | accept | openFile | epollCtl | cork | close => rfl

/-- Calls that make and connect no socket leave every peer as it was. -/
theorem connectedTo_still (fd : Nat) (hcs : ∀ c ∈ cs, c.dials = false) :
    connectedTo fd (calls ++ cs) = connectedTo fd calls := by
  induction cs using List.reverseRecOn with
  | nil => rw [List.append_nil]
  | append_singleton cs c ih =>
      rw [← List.append_assoc, connectedTo_append,
        ← ih fun c' hc' => hcs c' (List.mem_append_left _ hc')]
      have hc := hcs c (List.mem_append_right _ (List.mem_singleton.2 rfl))
      cases c with
      | socket | connect => cases hc
      | accept | openFile | epollCtl | cork | close => rfl

theorem Peer.congr {calls' : List ControlCall} {fd len : Nat} {addr : List UInt8}
    (h : Peer calls fd addr len) (hsame : connectedTo fd calls' = connectedTo fd calls) :
    Peer calls' fd addr len := by
  unfold Peer
  rw [hsame]
  exact h

/-- Calls that connect nothing leave the peers alone. -/
theorem PeersOk.still (h : PeersOk calls l) (hcs : ∀ c ∈ cs, c.dials = false) :
    PeersOk (calls ++ cs) l :=
  ⟨fun e he => (h.pool e he).congr (connectedTo_still _ hcs),
    fun fd hfd hl => (h.upstream fd hfd hl).congr (connectedTo_still _ hcs)⟩

/-- What `proxy_pool_take` gives was connected to the address asked for. -/
theorem PeersOk.take (h : PeersOk calls l) {addr : List UInt8} {len fd : Nat}
    {pool : List ProxyIdle} (htake : proxyPoolTake l.pool addr len = (some fd, pool)) :
    Peer calls fd addr len := by
  obtain ⟨i, e, last, he, rfl, haddr, -, -⟩ := proxyPoolTake_some htake
  obtain ⟨a, ha, hsame⟩ := h.pool e (List.mem_of_getElem? he)
  unfold addrEq at haddr
  simp only [Bool.and_eq_true, beq_iff_eq] at haddr
  obtain ⟨⟨hlen, -⟩, hbytes⟩ := haddr
  refine ⟨a, ha, ?_⟩
  rw [← hlen, hsame, hbytes]

theorem proxyPoolTake_mem {pool pool' : List ProxyIdle} {addr : List UInt8} {len fd : Nat}
    (htake : proxyPoolTake pool addr len = (some fd, pool')) : ∀ e ∈ pool', e ∈ pool := by
  obtain ⟨i, e, last, he, -, -, hlast, rfl⟩ := proxyPoolTake_some htake
  intro x hx
  rcases List.mem_or_eq_of_mem_set ((List.dropLast_subset _ hx)) with hx | rfl
  · exact hx
  · exact List.mem_of_getLast? hlast

section Ledger

variable {j n : Nat} {d : Holding Place}

/-- An idle socket is open, and it is not the upstream socket of the slot. -/
theorem Sound.idle {opens : Nat → Option FdKind} (hd : Sound Place.kind n opens (d.link j l))
    {e : ProxyIdle} (he : e ∈ l.pool) : opens e.fd = some .upstream ∧ l.fd ≠ some e.fd := by
  obtain ⟨i, hi⟩ := List.mem_iff_getElem?.1 he
  have hplace : (d.link j l).place (.idle i) = some (e.fd, 0) := by
    show (l.pool[i]?).map _ = _
    rw [hi]
    rfl
  refine ⟨hd.counted.isOpen (.idle i) e.fd 0 hplace, fun hfd => ?_⟩
  have hup : (d.link j l).place (.slot j .upstream) = some (e.fd, 0) := by
    rw [link_upstream, hfd]
    rfl
  cases hd.counted.once _ _ e.fd 0 0 hplace hup

theorem not_connect_epoll (fd : Nat) (op : EpollOp) (ok : Bool) :
    ¬ IsConnect (.epollCtl fd op ok) := by
  rintro ⟨_, _, _, h⟩
  cases h

/-- A new socket is none of those that are open. -/
theorem connectedTo_socket {fd fd' : Nat} {addr : List UInt8}
    (hopen : (openFds calls fd').isSome) (hfresh : openFds calls fd = none) :
    connectedTo fd' (calls ++ [.socket addr (some fd)]) = connectedTo fd' calls := by
  rw [connectedTo_append]
  refine if_neg fun heq => ?_
  rw [← Option.some.inj heq, hfresh] at hopen
  cases hopen

/-- The socket of the slot is closed and there is a new one. -/
theorem connectedTo_redial {old fd fd' : Nat} {addr : List UInt8} {kind : FdKind}
    (hopen : openFds calls fd' = some kind) (hne : old ≠ fd')
    (hfresh : FreshAfter (openFds calls) [.close old, .socket addr (some fd)]) :
    connectedTo fd' (calls ++ [.close old, .socket addr (some fd)]) = connectedTo fd' calls := by
  have hsplit : calls ++ [.close old, .socket addr (some fd)] =
      (calls ++ [.close old]) ++ [.socket addr (some fd)] := by
    rw [List.append_assoc]
    rfl
  rw [hsplit, connectedTo_socket ?_ ?_]
  · exact connectedTo_append ..
  · rw [openFds_append, afterCalls_singleton]
    rw [show afterCall (openFds calls) (.close old) fd' = some kind from
      (Function.update_of_ne (Ne.symm hne) _ _).trans hopen]
    rfl
  · rw [openFds_append, afterCalls_singleton]
    exact hfresh.2.1 fd rfl

/-- After a move every socket is still connected to the address it is kept under. -/
theorem LinkMove.peers (h : LinkMove l cs m) (hd : Sound Place.kind n (openFds calls) (d.link j l))
    (hfresh : FreshAfter (openFds calls) cs) (hok : PeersOk calls l) :
    PeersOk (calls ++ cs) m := by
  have hstill : ∀ {cs : List ControlCall}, (∀ e ∈ l.pool,
      connectedTo e.fd (calls ++ cs) = connectedTo e.fd calls) →
        ∀ e ∈ l.pool, Peer (calls ++ cs) e.fd e.addr e.len :=
    fun hsame e he => (hok.pool e he).congr (hsame e he)
  have hepoll : ∀ (fd : Nat) (op : EpollOp) (ok : Bool) (fd' : Nat),
      connectedTo fd' (calls ++ [.epollCtl fd op ok]) = connectedTo fd' calls :=
    fun fd op ok fd' => connectedTo_quiet fd' ⟨rfl, nofun⟩ (not_connect_epoll fd op ok)
  cases h with
  | quiet c hc hconn hepoll =>
      have hsame : ∀ fd, connectedTo fd (calls ++ [c]) = connectedTo fd calls :=
        fun fd => connectedTo_quiet fd hc hconn
      exact ⟨hstill fun e _ => hsame e.fd, fun fd hfd hl => (hok.upstream fd hfd hl).congr (hsame fd)⟩
  | arm fd io hfd | unplug fd ok hfd hin =>
      exact ⟨hstill fun e _ => hepoll .., fun fd' hfd' hl => (hok.upstream fd' hfd' hl).congr (hepoll ..)⟩
  | armFail fd io hfd =>
      exact ⟨hstill fun e _ => hepoll .., fun fd' hfd' hl => (hok.upstream fd' hfd' hl).congr (hepoll ..)⟩
  | rename addr len armed linked hfd =>
      rw [List.append_nil]
      refine ⟨hok.pool, fun fd hfd' => ?_⟩
      rw [show l.fd = some fd from hfd'] at hfd
      cases hfd
  | connect fd r hfd =>
      refine ⟨hstill fun e he => ?_, fun fd' hfd' hlinked => ?_⟩
      · rw [connectedTo_append]
        refine if_neg fun heq => (Sound.idle hd he).2 ?_
        rw [hfd, heq.1]
      · have hsame : fd = fd' := Option.some.inj (hfd.symm.trans hfd')
        refine ⟨l.addr, ?_, rfl⟩
        rw [connectedTo_append]
        exact if_pos ⟨hsame, of_decide_eq_true hlinked⟩
  | redial old fd hfd =>
      refine ⟨hstill fun e he => ?_, nofun⟩
      obtain ⟨hopen, hne⟩ := Sound.idle hd he
      refine connectedTo_redial hopen (fun heq => hne ?_) hfresh
      rw [hfd, heq]
  | close fd hfd => exact ⟨hstill fun e _ => connectedTo_append .., nofun⟩
  | park fd pool hfd hin hlinked hput =>
      rw [List.append_nil]
      refine ⟨fun e he => ?_, nofun⟩
      rw [show pool = l.pool ++ [⟨fd, l.len, l.addr⟩] from proxyPoolPut_some hput] at he
      rcases List.mem_append.1 he with he | he
      · exact hok.pool e he
      · rw [List.mem_singleton.1 he]
        exact hok.upstream fd hfd hlinked

/-- The socket in another place stays connected to what it was. -/
theorem LinkMove.others (h : LinkMove l cs m)
    (hd : Sound Place.kind n (openFds calls) (d.link j l)) (hfresh : FreshAfter (openFds calls) cs)
    {p : Place} {fd k : Nat} (hp : p ≠ .slot j .upstream)
    (hplace : (d.link j l).place p = some (fd, k)) :
    connectedTo fd (calls ++ cs) = connectedTo fd calls := by
  have hopen := hd.counted.isOpen p fd k hplace
  -- The upstream socket of the slot is another one.
  have hother : ∀ fd', l.fd = some fd' → fd' ≠ fd := by
    intro fd' hfd heq
    have hup : (d.link j l).place (.slot j .upstream) = some (fd, 0) := by
      rw [link_upstream, hfd, heq]
      rfl
    exact hp (hd.counted.once _ _ fd k 0 hplace hup)
  cases h with
  | quiet c hc hconn hepoll => exact connectedTo_quiet fd hc hconn
  | arm fd' io hfd => exact connectedTo_quiet fd ⟨rfl, nofun⟩ (not_connect_epoll _ _ _)
  | armFail fd' io hfd => exact connectedTo_quiet fd ⟨rfl, nofun⟩ (not_connect_epoll _ _ _)
  | unplug fd' ok hfd hin => exact connectedTo_quiet fd ⟨rfl, nofun⟩ (not_connect_epoll _ _ _)
  | rename | park => rw [List.append_nil]
  | connect fd' r hfd =>
      rw [connectedTo_append]
      exact if_neg fun heq => hother fd' hfd heq.1
  | redial old fd' hfd => exact connectedTo_redial hopen (hother old hfd) hfresh
  | close fd' hfd => exact connectedTo_append ..

/-- The moves of one slot leave the peers of the others alone. -/
theorem LinkMoves.others (h : LinkMoves l cs m) (hj : j < n) (hn : n ≤ UINT16_MAX)
    (hd : Sound Place.kind n (openFds calls) (d.link j l)) (hfresh : FreshAfter (openFds calls) cs)
    {i fd k : Nat} (hi : i ≠ j) (hplace : d.place (.slot i .upstream) = some (fd, k)) :
    connectedTo fd (calls ++ cs) = connectedTo fd calls := by
  have hp : Place.slot i .upstream ≠ .slot j .upstream := fun he => hi (by cases he; rfl)
  induction h with
  | refl => rw [List.append_nil]
  | tail hs hm ih =>
      rw [freshAfter_append] at hfresh
      have hd' := (hs.places j d).sound hj hn hd hfresh.1
      rw [← openFds_append] at hd' hfresh
      rw [← List.append_assoc, ← ih hfresh.1]
      exact hm.others hd' hfresh.2 hp ((if_neg hi).trans hplace)

/-- After some moves every socket is connected to its address. -/
theorem LinkMoves.peers (h : LinkMoves l cs m) (hj : j < n) (hn : n ≤ UINT16_MAX)
    (hd : Sound Place.kind n (openFds calls) (d.link j l)) (hfresh : FreshAfter (openFds calls) cs)
    (hok : PeersOk calls l) : PeersOk (calls ++ cs) m := by
  induction h with
  | refl =>
      rw [List.append_nil]
      exact hok
  | tail hs hm ih =>
      rw [freshAfter_append] at hfresh
      have hd' := (hs.places j d).sound hj hn hd hfresh.1
      rw [← openFds_append] at hd' hfresh
      rw [← List.append_assoc]
      exact hm.peers hd' hfresh.2 (ih hfresh.1)

/-- After a new connection too. -/
theorem LinkOpens.peers {addr : List UInt8} {len : Nat} (h : LinkOpens addr len l cs m)
    (hd : Sound Place.kind n (openFds calls) (d.link j l)) (hfresh : FreshAfter (openFds calls) cs)
    (hok : PeersOk calls l) : PeersOk (calls ++ cs) m := by
  cases h with
  | refused =>
      rw [List.append_nil]
      exact ⟨hok.pool, nofun⟩
  | failed =>
      refine ⟨fun e he => (hok.pool e he).congr ?_, nofun⟩
      exact connectedTo_quiet e.fd ⟨rfl, nofun⟩ (by rintro ⟨_, _, _, h⟩; cases h)
  | take fd pool htake =>
      rw [List.append_nil]
      refine ⟨fun e he => hok.pool e (proxyPoolTake_mem htake e he), fun fd' hfd' _ => ?_⟩
      rw [← Option.some.inj hfd']
      exact hok.take htake
  | dial fd hmiss =>
      refine ⟨fun e he => (hok.pool e he).congr ?_, nofun⟩
      exact connectedTo_socket (by rw [(Sound.idle hd he).1]; rfl) (hfresh.1 fd rfl)

/-- What an opened link leaves alone. -/
theorem LinkOpens.others {addr : List UInt8} {len : Nat} (h : LinkOpens addr len l cs m)
    (hd : Sound Place.kind n (openFds calls) (d.link j l)) (hfresh : FreshAfter (openFds calls) cs)
    {p : Place} {fd k : Nat} (hplace : (d.link j l).place p = some (fd, k)) :
    connectedTo fd (calls ++ cs) = connectedTo fd calls := by
  cases h with
  | refused | take => rw [List.append_nil]
  | failed => exact connectedTo_quiet fd ⟨rfl, nofun⟩ (by rintro ⟨_, _, _, h⟩; cases h)
  | dial fd' hmiss =>
      exact connectedTo_socket (by rw [hd.counted.isOpen p fd k hplace]; rfl) (hfresh.1 fd' rfl)

/-- After a call too. -/
theorem LinkPath.peers {addr : List UInt8} {len : Nat} (h : LinkPath addr len l cs m) (hj : j < n)
    (hn : n ≤ UINT16_MAX) (hd : Sound Place.kind n (openFds calls) (d.link j l))
    (hfresh : FreshAfter (openFds calls) cs) (hok : PeersOk calls l) : PeersOk (calls ++ cs) m := by
  cases h with
  | moves h => exact h.peers hj hn hd hfresh hok
  | opens ho h =>
      rw [freshAfter_append] at hfresh
      have hd' := (ho.places j d).sound hj hn hd hfresh.1
      rw [← openFds_append] at hd' hfresh
      rw [← List.append_assoc]
      exact h.peers hj hn hd' hfresh.2 (ho.peers hd hfresh.1 hok)

/-- A call leaves the peers of the other slots alone. -/
theorem LinkPath.others {addr : List UInt8} {len : Nat} (h : LinkPath addr len l cs m) (hj : j < n)
    (hn : n ≤ UINT16_MAX) (hd : Sound Place.kind n (openFds calls) (d.link j l))
    (hfresh : FreshAfter (openFds calls) cs) {i fd k : Nat} (hi : i ≠ j)
    (hplace : d.place (.slot i .upstream) = some (fd, k)) :
    connectedTo fd (calls ++ cs) = connectedTo fd calls := by
  cases h with
  | moves h => exact h.others hj hn hd hfresh hi hplace
  | opens ho h =>
      rw [freshAfter_append] at hfresh
      have hd' := (ho.places j d).sound hj hn hd hfresh.1
      rw [← openFds_append] at hd' hfresh
      rw [← List.append_assoc, h.others hj hn hd' hfresh.2 hi hplace]
      have hup : (d.link j l).place (.slot i .upstream) = some (fd, k) := (if_neg hi).trans hplace
      exact ho.others hd hfresh.1 hup

end Ledger

end Peers

end TinyServer.Proxy
