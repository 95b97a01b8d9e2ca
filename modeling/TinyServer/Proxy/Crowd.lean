import TinyServer.Proxy.Pool

/-!
# How many sockets there are

An exchange has one socket at a time, and what it gives back is one idle socket more. Only
an exchange that finds no idle socket to its address adds one (`LinkPath.sockets_le`).
Where all exchanges have the same address, an idle socket is always found (`OnlyFor`).
-/

set_option autoImplicit false

namespace TinyServer.Proxy

open TinyServer.Net

/-! ## The number of sockets -/

/-- The sockets of a slot and of the pool. -/
def sockets (fd : Option Nat) (pool : List ProxyIdle) : Nat := pool.length + fd.toList.length

section Sockets

variable {l m : Link} {cs : List ControlCall} {addr : List UInt8} {len : Nat}

/-- A move does not open a socket more. -/
theorem LinkMove.sockets_le (h : LinkMove l cs m) : sockets m.fd m.pool ≤ sockets l.fd l.pool := by
  cases h with
  | quiet | arm | armFail | unplug | rename | connect => exact Nat.le_refl _
  | redial old fd hfd =>
      rw [hfd]
      exact Nat.le_refl _
  | close fd hfd =>
      rw [hfd]
      exact Nat.le_succ _
  | park fd pool hfd hin hlinked hput =>
      rw [hfd, proxyPoolPut_some hput]
      show (l.pool ++ [_]).length + 0 ≤ l.pool.length + 1
      rw [List.length_append, List.length_singleton]

/-- Nor do some moves. -/
theorem LinkMoves.sockets_le (h : LinkMoves l cs m) : sockets m.fd m.pool ≤ sockets l.fd l.pool := by
  induction h with
  | refl => exact Nat.le_refl _
  | tail _ hm ih => exact hm.sockets_le.trans ih

/-- An entry that is taken leaves the pool. -/
theorem proxyPoolTake_length {pool pool' : List ProxyIdle} {fd : Nat}
    (h : proxyPoolTake pool addr len = (some fd, pool')) : pool'.length + 1 = pool.length := by
  obtain ⟨i, e, last, he, -, -, -, rfl⟩ := proxyPoolTake_some h
  have hlt : i < pool.length := (List.getElem?_eq_some_iff.1 he).1
  rw [List.length_dropLast, List.length_set]
  omega

/-- A new socket is one more, unless there were no idle ones. -/
theorem LinkOpens.sockets_le (h : LinkOpens addr len l cs m)
    (hunmixed : (proxyPoolTake l.pool addr len).1 = none → l.pool = []) :
    sockets m.fd m.pool ≤ max (sockets l.fd l.pool) 1 := by
  have hpool : ∀ k, k ≤ l.pool.length → k ≤ max (sockets l.fd l.pool) 1 := fun k hk =>
    (hk.trans (Nat.le_add_right _ _)).trans (Nat.le_max_left _ _)
  cases h with
  | refused => exact hpool _ (Nat.le_refl _)
  | failed => exact hpool _ (Nat.le_refl _)
  | take fd pool htake => exact hpool _ (proxyPoolTake_length htake).le
  | dial fd hmiss =>
      show l.pool.length + 1 ≤ _
      rw [hunmixed hmiss]
      exact Nat.le_max_right _ _

/-- A call opens one only where the pool has none for its address. -/
theorem LinkPath.sockets_le (h : LinkPath addr len l cs m)
    (hunmixed : (proxyPoolTake l.pool addr len).1 = none → l.pool = []) :
    sockets m.fd m.pool ≤ max (sockets l.fd l.pool) 1 := by
  cases h with
  | moves h => exact h.sockets_le.trans (Nat.le_max_left _ _)
  | opens ho h => exact h.sockets_le.trans (ho.sockets_le hunmixed)

end Sockets

/-! ## One address -/

/-- The socket of a slot and the idle sockets are for the address. -/
structure OnlyFor (addr : List UInt8) (len : Nat) (l : Link) : Prop where
  own : ∀ fd, l.fd = some fd → l.len = len ∧ l.addr.take len = addr.take len
  idle : ∀ e ∈ l.pool, e.len = len ∧ 0 < len ∧ e.addr.take len = addr.take len

section Address

variable {addr : List UInt8} {len : Nat} {l m : Link} {cs : List ControlCall}

/-- A slot that only has sockets for one address keeps to it. -/
theorem LinkMove.onlyFor (h : LinkMove l cs m) (hl : OnlyFor addr len l) : OnlyFor addr len m := by
  cases h with
  | quiet | arm | armFail | unplug => exact ⟨hl.own, hl.idle⟩
  | connect => exact ⟨hl.own, hl.idle⟩
  | rename addr' len' armed linked hfd =>
      refine ⟨fun fd hsome => ?_, hl.idle⟩
      rw [show l.fd = some fd from hsome] at hfd
      cases hfd
  | redial old fd hfd => exact ⟨fun _ _ => hl.own old hfd, hl.idle⟩
  | close => exact ⟨nofun, hl.idle⟩
  | park fd pool hfd hin hlinked hput =>
      refine ⟨nofun, fun e he => ?_⟩
      obtain ⟨hlen, haddr⟩ := hl.own fd hfd
      have hpos : 0 < l.len := by
        by_contra hzero
        unfold proxyPoolPut at hput
        rw [if_pos (Or.inl (Nat.le_zero.1 (not_lt.1 hzero)))] at hput
        cases hput
      rw [proxyPoolPut_some hput] at he
      rcases List.mem_append.1 he with he | he
      · exact hl.idle e he
      · rw [List.mem_singleton.1 he]
        exact ⟨hlen, hlen ▸ hpos, haddr⟩

theorem LinkMoves.onlyFor (h : LinkMoves l cs m) (hl : OnlyFor addr len l) : OnlyFor addr len m := by
  induction h with
  | refl => exact hl
  | tail _ hm ih => exact hm.onlyFor ih

theorem proxyPoolTake_subset {pool pool' : List ProxyIdle} {fd : Nat}
    (h : proxyPoolTake pool addr len = (some fd, pool')) : pool' ⊆ pool := by
  obtain ⟨i, e, last, he, -, -, hlast, rfl⟩ := proxyPoolTake_some h
  intro x hx
  rcases List.mem_or_eq_of_mem_set (List.dropLast_subset _ hx) with hx | rfl
  · exact hx
  · exact List.mem_of_getLast? hlast

/-- A call for that address keeps to it. -/
theorem LinkPath.onlyFor {up : List UInt8} (h : LinkPath up len l cs m)
    (hup : up.take len = addr.take len) (hl : OnlyFor addr len l) : OnlyFor addr len m := by
  cases h with
  | moves h => exact h.onlyFor hl
  | opens ho h =>
      refine h.onlyFor ?_
      cases ho with
      | refused => exact ⟨nofun, hl.idle⟩
      | failed => exact ⟨nofun, hl.idle⟩
      | take fd pool htake =>
          exact ⟨fun _ _ => ⟨rfl, hup⟩, fun e he => hl.idle e (proxyPoolTake_subset htake he)⟩
      | dial => exact ⟨fun _ _ => ⟨rfl, hup⟩, hl.idle⟩

/-- An entry for the address is found. -/
theorem proxyPoolTake_none {pool : List ProxyIdle} {e : ProxyIdle} (he : e ∈ pool)
    (h : (proxyPoolTake pool addr len).1 = none) : addrEq e.addr e.len addr len = false := by
  by_contra hmatch
  obtain ⟨i, hi⟩ := List.mem_iff_getElem?.1 he
  have hlt : i < pool.length := (List.getElem?_eq_some_iff.1 hi).1
  unfold proxyPoolTake at h
  extract_lets matching at h
  have hmem : i ∈ matching := by
    refine List.mem_filter.2 ⟨List.mem_range.2 hlt, ?_⟩
    rw [hi]
    exact Bool.not_eq_false _ ▸ hmatch
  split at h
  · rename_i hempty
    rw [List.getLast?_eq_none_iff.1 hempty] at hmem
    cases hmem
  · rename_i k hk
    have hk' : k < pool.length :=
      List.mem_range.1 (List.mem_filter.1 (List.mem_of_getLast? hk)).1
    have hget : pool[k]? = some pool[k] := List.getElem?_eq_getElem hk'
    have hlast : ∃ last, pool.getLast? = some last := by
      cases hl : pool.getLast? with
      | none =>
          rw [List.getLast?_eq_none_iff.1 hl] at he
          cases he
      | some last => exact ⟨last, rfl⟩
    obtain ⟨last, hlast⟩ := hlast
    rw [hget, hlast] at h
    cases h

end Address

end TinyServer.Proxy
