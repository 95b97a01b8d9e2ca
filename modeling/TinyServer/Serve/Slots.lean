import TinyServer.Serve.Stale
import TinyServer.Serve.Tends

/-!
# Slots and client sockets

A slot goes back to the free stack from many places: when a connection is refused, when a
handler asks for it, when epoll fails, when a deadline is over and at the end. In every
state that a worker reaches the free stack has exactly the slots that are not in use
(`Manned`), and every client socket that the worker was given has exactly one slot, or was
closed once (`ClientsKept`).
-/

set_option autoImplicit false

namespace TinyServer.Serve

open TinyServer.Http TinyServer.Net TinyServer.Proxy TinyServer.Static TinyServer.Routing
open TinyServer.Lib
open TinyServer.Net.Holding

/-! ## One slot -/

namespace Turn

/-- What the worker keeps of the use of its slots. -/
def staff (t : Turn) : Bool × List Nat × Nat := (t.active, t.freeStack, t.nactive)

/-- The slot `idx` stays in use or not, or it goes back to the free stack. -/
def Leaves (idx : Nat) (t t' : Turn) : Prop :=
  t'.staff = t.staff ∨
    t.active = true ∧ t'.staff = (false, idx :: t.freeStack, t.nactive - 1)

variable {idx : Nat} {t t' t'' : Turn}

theorem Leaves.trans (h : Leaves idx t t') (h' : Leaves idx t' t'') : Leaves idx t t'' := by
  rcases h with h | ⟨hon, h⟩
  · have hparts := h
    simp only [staff, Prod.mk.injEq] at hparts
    obtain ⟨hactive, hfree, hcount⟩ := hparts
    rcases h' with h' | ⟨hon', h'⟩
    · exact Or.inl (h'.trans h)
    · rw [hfree, hcount] at h'
      exact Or.inr ⟨hactive.symm.trans hon', h'⟩
  · have hoff : t'.active = false := congrArg Prod.fst h
    rcases h' with h' | ⟨hon', -⟩
    · exact Or.inr ⟨hon, h'.trans h⟩
    · rw [hoff] at hon'
      cases hon'

/-- `slot_close` does nothing to a slot that is not in use. -/
theorem slotClose_idle (idx : Nat) (h : t.active = false) : t.slotClose idx = t := by
  unfold slotClose
  rw [h]
  rfl

theorem slotClose_leaves (idx : Nat) (t : Turn) : Leaves idx t (t.slotClose idx) := by
  cases hactive : t.active with
  | false =>
      rw [slotClose_idle idx hactive]
      exact Or.inl rfl
  | true =>
      refine Or.inr ⟨hactive, ?_⟩
      unfold slotClose
      rw [hactive]
      simp only [Bool.not_true, Bool.false_eq_true, if_false]
      split <;> rfl

theorem armEvents_leaves (idx : Nat) (io : HttpIo) (t : Turn) :
    Leaves idx t (t.armEvents idx io) := by
  unfold armEvents
  split
  · exact Or.inl rfl
  split
  · simp only
    split
    · exact Or.inl rfl
    · exact slotClose_leaves idx _
  · exact slotClose_leaves idx t

end Turn

section Acts

variable {site : Site} {fuel now idx : Nat} {p q : Point} {t t' : Turn}

/-- Only `slot_close` changes the use of a slot. -/
theorem Act.leaves (h : Act site fuel now idx (p, t) (q, t')) : Turn.Leaves idx t t' := by
  cases h with
  | hangUp => exact Turn.slotClose_leaves idx t
  | close => exact Turn.slotClose_leaves idx t
  | arm => exact Turn.armEvents_leaves idx _ t
  | pump _ _ _ _ h =>
      obtain ⟨r, -, hr⟩ := Option.map_eq_some_iff.1 h
      cases hr
      exact Or.inl rfl
  | proxy _ _ _ _ _ _ _ _ _ h =>
      obtain ⟨r, -, hr⟩ := Option.map_eq_some_iff.1 h
      cases hr
      exact Or.inl rfl
  | reply _ _ _ _ _ h =>
      obtain ⟨h, rfl⟩ := h.handler
      exact Or.inl rfl
  | full | overlong =>
      unfold Turn.refused
      split
      · exact Or.inl rfl
      · exact Or.inl rfl
  | _ => exact Or.inl rfl

theorem Acts.leaves (h : Acts site fuel now idx (p, t) (q, t')) : Turn.Leaves idx t t' :=
  h.invariant (I := fun _ u => Turn.Leaves idx t u) (fun _ _ _ _ hact ih => ih.trans hact.leaves)
    (Or.inl rfl)

end Acts

/-! ## The free stack -/

namespace Worker

/-- The free stack has the slots that are not in use, and `nactive` counts the others. -/
structure Manned (w : Worker) : Prop where
  once : w.freeStack.Nodup
  free : ∀ k, k ∈ w.freeStack ↔ ∃ s, w.slots[k]? = some s ∧ s.active = false
  count : w.nactive = w.slots.countP fun s => s.active

section Manned

variable {site : Site} {fuel n j : Nat} {w w' : Worker} {s : Slot} {t t' : Turn}

theorem start_manned (n : Nat) : (Worker.start n).Manned := by
  refine ⟨List.nodup_range, fun k => ?_, ?_⟩
  · show k ∈ List.range n ↔ ∃ s, (List.replicate n Slot.unused)[k]? = some s ∧ s.active = false
    rw [List.mem_range, List.getElem?_replicate]
    constructor
    · intro hk
      exact ⟨.unused, if_pos hk, rfl⟩
    · rintro ⟨s, hs, -⟩
      by_contra hk
      rw [if_neg hk] at hs
      cases hs
  · show 0 = (List.replicate n Slot.unused).countP fun s => s.active
    rw [List.countP_replicate]
    rfl

theorem Manned.length_le (h : w.Manned) : w.freeStack.length ≤ w.slots.length := by
  have hsub : w.freeStack ⊆ List.range w.slots.length := by
    intro k hk
    obtain ⟨s, hs, -⟩ := (h.free k).1 hk
    exact List.mem_range.2 (List.getElem?_eq_some_iff.1 hs).1
  have hle := (h.once.subperm hsub).length_le
  rw [List.length_range] at hle
  exact hle

/-- The rule for what is stored in a slot: `rest` are the other free slots. -/
theorem store_manned (hs : w.slots[j]? = some s) (hm : w.Manned) {rest : List Nat}
    (hrest : rest.Nodup) (hmem : ∀ k, k ∈ rest ↔ k ≠ j ∧ k ∈ w.freeStack)
    (hfree : t.freeStack = if t.active then rest else j :: rest)
    (hcount : t.nactive + (if s.active then 1 else 0) =
      w.nactive + (if t.active then 1 else 0)) : (w.store j t).Manned := by
  have hlt : j < w.slots.length := (List.getElem?_eq_some_iff.1 hs).1
  refine ⟨?_, fun k => ?_, ?_⟩
  · show t.freeStack.Nodup
    rw [hfree]
    split
    · exact hrest
    · exact List.nodup_cons.2 ⟨fun hj => ((hmem j).1 hj).1 rfl, hrest⟩
  · show k ∈ t.freeStack ↔ _
    by_cases hk : k = j
    · subst hk
      rw [store_self t hs, hfree]
      cases hactive : t.active with
      | true =>
          rw [if_pos rfl]
          refine ⟨fun hj => absurd rfl ((hmem k).1 hj).1, ?_⟩
          rintro ⟨x, hx, hoff⟩
          rw [← Option.some.inj hx, show (slotOf t).active = t.active from rfl, hactive] at hoff
          cases hoff
      | false =>
          rw [if_neg Bool.false_ne_true]
          exact ⟨fun _ => ⟨slotOf t, rfl, hactive⟩, fun _ => List.mem_cons_self⟩
    · rw [store_slots t hk, ← hm.free, hfree]
      split
      · rw [hmem]
        exact ⟨fun h => h.2, fun h => ⟨hk, h⟩⟩
      · rw [List.mem_cons, hmem]
        exact ⟨fun h => (h.resolve_left hk).2, fun h => Or.inr ⟨hk, h⟩⟩
  · show t.nactive = (w.slots.set j (slotOf t)).countP fun s => s.active
    have hold : w.slots[j] = s := (List.getElem?_eq_some_iff.1 hs).2
    rw [List.countP_set hlt, hold, ← hm.count]
    show _ = w.nactive - (if s.active = true then 1 else 0) + if t.active = true then 1 else 0
    have hpos : s.active = true → 0 < w.nactive := by
      intro hon
      rw [hm.count]
      exact List.countP_pos_iff.2 ⟨s, List.mem_of_getElem? hs, hon⟩
    split at hcount
    · rename_i hon
      have := hpos hon
      rw [if_pos hon]
      omega
    · rename_i hoff
      rw [if_neg hoff]
      omega

/-- A handler of a slot in use keeps the free stack or puts its slot back. -/
theorem leaves_manned (hs : w.slots[j]? = some s) (hm : w.Manned) (hactive : t.active = true)
    (hfree : t.freeStack.Nodup) (hmem : ∀ k, k ∈ t.freeStack ↔ k ≠ j ∧ k ∈ w.freeStack)
    (hcount : t.nactive + (if s.active then 1 else 0) = w.nactive + 1)
    (h : Turn.Leaves j t t') : (w.store j t').Manned := by
  rcases h with h | ⟨-, h⟩
  · simp only [Turn.staff, Prod.mk.injEq] at h
    obtain ⟨hactive', hfree', hcount'⟩ := h
    refine store_manned hs hm hfree hmem ?_ ?_
    · rw [hactive', hactive, hfree', if_pos rfl]
    · rw [hactive', hactive, hcount', if_pos rfl]
      exact hcount
  · simp only [Turn.staff, Prod.mk.injEq] at h
    obtain ⟨hactive', hfree', hcount'⟩ := h
    refine store_manned hs hm hfree hmem ?_ ?_
    · rw [hactive', hfree', if_neg Bool.false_ne_true]
    · rw [hactive', hcount', if_neg Bool.false_ne_true]
      -- The slot in use is one of those counted.
      have hpos : s.active = true → 0 < w.nactive := by
        intro hon
        rw [hm.count]
        exact List.countP_pos_iff.2 ⟨s, List.mem_of_getElem? hs, hon⟩
      split at hcount
      · rename_i hon
        have := hpos hon
        rw [if_pos hon]
        omega
      · rename_i hoff
        rw [if_neg hoff]
        omega

theorem Tend.manned (h : Tend site fuel anyState w w') (hm : w.Manned) : w'.Manned := by
  cases h with
  | stale fd => exact ⟨hm.once, hm.free, hm.count⟩
  | reject fd now idx free s sched disk hfree hs =>
      have ht := rejected_spec fd now sched disk hfree s
      have hoff : s.active = false := by
        obtain ⟨x, hx, hoff⟩ := (hm.free idx).1 (by rw [hfree]; exact List.mem_cons_self)
        rw [Option.some.inj (hs.symm.trans hx)]
        exact hoff
      have honce := hm.once
      rw [hfree, List.nodup_cons] at honce
      refine store_manned hs hm honce.2 (fun k => ?_) ?_ ?_
      · rw [hfree, List.mem_cons]
        constructor
        · intro hk
          exact ⟨fun he => honce.1 (he ▸ hk), Or.inr hk⟩
        · exact fun hk => hk.2.resolve_left hk.1
      · rw [ht.active, hoff, ht.free, hfree, if_neg Bool.false_ne_true]
      · rw [ht.active, ht.count]
  | enter fd now idx free s sched disk t hfree hs hwatched h =>
      have hoff : s.active = false := by
        obtain ⟨x, hx, hoff⟩ := (hm.free idx).1 (by rw [hfree]; exact List.mem_cons_self)
        rw [Option.some.inj (hs.symm.trans hx)]
        exact hoff
      have honce := hm.once
      rw [hfree, List.nodup_cons] at honce
      refine leaves_manned (t := w.admitted s fd now free sched disk) hs hm rfl honce.2
        (fun k => ?_) ?_ h.acts.leaves
      · rw [hfree, List.mem_cons]
        constructor
        · intro hk
          exact ⟨fun he => honce.1 (he ▸ hk), Or.inr hk⟩
        · exact fun hk => hk.2.resolve_left hk.1
      · rw [hoff]
        rfl
  | handle now idx s sched disk t hs hactive h =>
      have hbusy : idx ∉ w.freeStack := by
        intro hmem
        obtain ⟨x, hx, hoff⟩ := (hm.free idx).1 hmem
        rw [Option.some.inj (hs.symm.trans hx), hoff] at hactive
        cases hactive
      refine leaves_manned (t := w.load s sched disk) hs hm hactive hm.once (fun k => ?_) ?_
        h.acts.leaves
      · exact ⟨fun hk => ⟨fun he => hbusy (he ▸ hk), hk⟩, fun hk => hk.2⟩
      · rw [hactive]
        rfl

/-- In every run the free stack and the slots agree. -/
theorem reachable_manned (site : Site) (fuel n : Nat) (as : List Action) :
    ∀ w ∈ runStates (Worker.step site fuel) (Worker.start n) as, w.Manned :=
  reachable_of_tends (start_manned n) (fun _ _ _ h hm => h.manned hm)
    (fun _ _ _ hm => ⟨hm.once, hm.free, hm.count⟩) as

end Manned

/-! ## Client sockets -/

/-- The slot `k` is in use for the client socket `fd`. -/
def Owner (w : Worker) (fd k : Nat) : Prop :=
  ∃ s, w.slots[k]? = some s ∧ s.active = true ∧ s.hc.fd = some fd

/-- Every client socket that the worker was given has exactly one slot, or it was closed
once. The kernel can give its number again after that. -/
structure ClientsKept (w : Worker) : Prop where
  last : ∀ before fd after, w.calls = before ++ .accept fd :: after →
    (∀ c ∈ after, c.opened ≠ some fd) →
      (∃! k, w.Owner fd k) ∧ after.count (.close fd) = 0 ∨
        (∀ k, ¬ w.Owner fd k) ∧ after.count (.close fd) = 1
  earlier : ∀ before fd between c after,
    w.calls = before ++ .accept fd :: (between ++ c :: after) →
      (∀ c ∈ between, c.opened ≠ some fd) → c.opened = some fd →
        between.count (.close fd) = 1

/-- What the record of calls says about the client sockets. -/
structure Accounted (w : Worker) : Prop where
  placed : Placed (openFds w.calls) w.ledger
  closes : ClosesOpen (fun _ => none) w.calls

section Clients

variable {site : Site} {fuel n j : Nat} {w w' : Worker} {s : Slot} {t t' : Turn}

theorem Accounted.then {cs : List ControlCall} (h : w.Accounted) (hcalls : w'.calls = w.calls ++ cs)
    (hplaced : Placed (afterCalls (openFds w.calls) cs) w'.ledger)
    (hcloses : ClosesOpen (openFds w.calls) cs) : w'.Accounted := by
  refine ⟨?_, ?_⟩
  · rw [hcalls, openFds_append]
    exact hplaced
  · rw [hcalls]
    exact (closesOpen_append _ _ _).2 ⟨h.closes, hcloses⟩

/-- What a handler leaves is stored. -/
theorem store_accounted (hn : n ≤ UINT16_MAX) (hfit : w.Fit n) (hsane : w.Sane n)
    (hs : w.slots[j]? = some s) (henter : Enters j w t) (hgoes : Turn.Goes j t t')
    (hfresh : FreshCalls (w.store j t').calls) (h : w.Accounted) : (w.store j t').Accounted := by
  obtain ⟨-, -, cs, hlog, hmoves, -⟩ := hgoes henter.fit
  obtain ⟨cs₀, hlog₀, -, hmoves₀⟩ := henter.moves
  have hj : j < n := by
    rw [← hfit.count]
    exact (List.getElem?_eq_some_iff.1 hs).1
  have hall := hmoves₀.trans (hmoves w.ledger (ledger_plain w))
  have hcalls : (w.store j t').calls = w.calls ++ (cs₀ ++ cs) := by
    show t'.log = _
    rw [hlog, hlog₀, List.append_assoc]
  rw [hcalls] at hfresh
  refine h.then hcalls ?_ (hall.closesOpen hj hn hsane.sound hfresh.append.2)
  rw [store_ledger t' hs]
  exact hall.placed hj hn hsane.sound hfresh.append.2 h.placed

/-- A connection that is closed at once. -/
theorem passing_accounted {cs : List ControlCall} {fd : Nat} (hquiet : ∀ c ∈ cs, c.Quiet)
    (hcalls : w'.calls = w.calls ++ (.accept fd :: cs ++ [.close fd]))
    (hledger : w'.ledger = w.ledger) (hfresh : FreshCalls w'.calls) (h : w.Accounted) :
    w'.Accounted := by
  rw [hcalls] at hfresh
  refine h.then hcalls ?_ ?_
  · rw [afterCalls_passing hquiet hfresh.append.2, hledger]
    exact h.placed
  · have hopen : ∀ (l : List ControlCall) (opens : Nat → Option FdKind), (∀ c ∈ l, c.Quiet) →
        opens fd ≠ none → ClosesOpen opens (l ++ [.close fd]) := by
      intro l
      induction l with
      | nil =>
          intro opens _ hfd
          refine ⟨fun fd' he => ?_, trivial⟩
          cases he
          exact hfd
      | cons c l ih =>
          intro opens hq hfd
          have hc := hq c List.mem_cons_self
          refine ⟨fun fd' he => absurd he (hc.2 fd'), ?_⟩
          rw [afterCall_quiet hc]
          exact ih opens (fun c' h => hq c' (List.mem_cons_of_mem c h)) hfd
    refine ⟨nofun, hopen cs _ hquiet ?_⟩
    have hself : Function.update (openFds w.calls) fd (some FdKind.client) fd = some .client :=
      Function.update_self ..
    show Function.update (openFds w.calls) fd (some FdKind.client) fd ≠ none
    rw [hself]
    exact nofun

/-- Each step of a worker keeps the clients accounted for. -/
theorem Tend.accounted (hn : n ≤ UINT16_MAX) (hr : Regular n w) (h : Tend site fuel anyState w w')
    (hfresh : FreshCalls w'.calls) (hk : w.Accounted) : w'.Accounted := by
  obtain ⟨cs, hcalls⟩ := (h.regular hr).2
  have hsane : w.Sane n := by
    rw [hcalls] at hfresh
    exact hr.sane hn hfresh.append.1
  cases h with
  | stale fd =>
      have hquiet : ∀ c ∈ ([] : List ControlCall), c.Quiet := nofun
      exact passing_accounted hquiet (List.append_assoc ..) rfl hfresh hk
  | reject fd now idx free s sched disk hfree hs =>
      have ht := rejected_spec fd now sched disk hfree s
      obtain ⟨ok, hlog⟩ := ht.log
      refine passing_accounted (fun c hc => ?_) hlog
        (ht.ledger hr.fit hs (hr.fit.top hfree hs).1) hfresh hk
      rw [List.mem_singleton.1 hc]
      exact ⟨rfl, nofun⟩
  | enter fd now idx free s sched disk t hfree hs hwatched h =>
      have henter := admitted_enters fd now sched disk hr.fit hfree hs
      exact store_accounted hn hr.fit hsane hs henter (h.acts.goes (.at_rest henter.fit)).2 hfresh hk
  | handle now idx s sched disk t hs hactive h =>
      have henter := load_enters sched disk hr.fit hs hactive
      exact store_accounted hn hr.fit hsane hs henter (h.acts.goes (.at_rest henter.fit)).2 hfresh hk

theorem start_accounted (n : Nat) : (Worker.start n).Accounted :=
  ⟨nofun, trivial⟩

/-- So does every run whose calls return fresh descriptors. -/
theorem reachable_accounted (site : Site) (fuel : Nat) {n : Nat} (hn : n ≤ UINT16_MAX)
    (as : List Action) : ∀ w ∈ runStates (Worker.step site fuel) (Worker.start n) as,
      FreshCalls w.calls → w.Accounted := by
  refine reachable_of_tends (fun _ => start_accounted n) (fun w w' hr h ih hfresh => ?_)
    (fun w hr hoff ih hfresh => ?_) as
  · obtain ⟨cs, hcalls⟩ := (h.regular hr).2
    have hbefore : FreshCalls w.calls := by
      rw [hcalls] at hfresh
      exact hfresh.append.1
    exact h.accounted hn hr hfresh (ih hbefore)
  · obtain ⟨cs, hcalls, hsheds⟩ := cleared_sheds hn hr hoff hfresh
    have hbefore : FreshCalls w.calls := by
      rw [hcalls] at hfresh
      exact hfresh.append.1
    exact (ih hbefore).then hcalls (hsheds.placed (ih hbefore).placed)
      (hsheds.closesOpen (hr.sane hn hbefore).sound)

theorem owner_iff {fd k : Nat} : w.Owner fd k ↔ w.ledger.place (.slot k .client) = some (fd, 0) := by
  show _ ↔ ((w.slots[k]?).bind fun s => s.owns .client).map _ = _
  constructor
  · rintro ⟨s, hs, hactive, hfd⟩
    rw [hs, Option.bind_some, show s.owns .client = if s.active then s.hc.fd else none from rfl,
      hactive, if_pos rfl, hfd]
    rfl
  · intro h
    obtain ⟨fd', hfd', he⟩ := Option.map_eq_some_iff.1 h
    obtain ⟨s, hs, howns⟩ := Option.bind_eq_some_iff.1 hfd'
    have hif : (if s.active then s.hc.fd else none) = some fd' := howns
    split at hif
    · rename_i hactive
      cases he
      exact ⟨s, hs, hactive, hif⟩
    · cases hif

/-- A client socket has a slot exactly when it is open. -/
theorem owner_open (hsane : w.Sane n) {fd k : Nat} (h : w.Owner fd k) :
    openFds w.calls fd = some .client := hsane.sound.counted.isOpen _ _ _ (owner_iff.1 h)

/-- An open client descriptor belongs to exactly one slot. -/
theorem Accounted.owner (h : w.Accounted) (hsane : w.Sane n) {fd : Nat}
    (hopen : openFds w.calls fd = some .client) : ∃! k, w.Owner fd k := by
  have hplace : ∃ k, w.Owner fd k := by
    rcases h.placed fd hopen with ⟨p, m, hp⟩ | hno
    · have hkind := hsane.sound.counted.isOpen p fd m hp
      rw [hopen] at hkind
      cases p with
      | slot k part =>
          cases part with
          | client =>
              obtain ⟨fd', -, he⟩ := Option.map_eq_some_iff.1 hp
              rw [← (Prod.mk.inj he).2] at hp
              exact ⟨k, owner_iff.2 hp⟩
          | upstream | own | opened => cases hkind
      | cached | retired | idle => cases hkind
    · exact hno.elim
  obtain ⟨k, hk⟩ := hplace
  refine ⟨k, hk, fun k' hk' => ?_⟩
  have hsame := hsane.sound.counted.once _ _ fd 0 0 (owner_iff.1 hk') (owner_iff.1 hk)
  exact (Place.slot.inj hsame).1

theorem Accounted.kept (h : w.Accounted) (hsane : w.Sane n) (hfresh : FreshCalls w.calls) :
    w.ClientsKept := by
  have hgiven : ∀ (opens : Nat → Option FdKind) (fd : Nat),
      afterCall opens (.accept fd) fd = some .client := fun _ _ => Function.update_self ..
  constructor
  case last =>
    intro before fd after hcalls hlast
    have hcloses := h.closes
    rw [hcalls] at hcloses
    have hafter : ClosesOpen (afterCall (openFds before) (.accept fd)) after :=
      ((closesOpen_append _ _ _).1 hcloses).2.2
    have hend : openFds w.calls fd =
        afterCalls (afterCall (openFds before) (.accept fd)) after fd := by
      rw [hcalls, openFds_append]
      rfl
    rcases open_life after hafter hlast (hgiven (openFds before) fd) with
      ⟨hcount, hopen⟩ | ⟨hcount, hnone⟩
    · exact Or.inl ⟨h.owner hsane (hend.trans hopen), hcount⟩
    · refine Or.inr ⟨fun k hk => ?_, hcount⟩
      rw [← hend, owner_open hsane hk] at hnone
      cases hnone
  case earlier =>
    intro before fd between c after hcalls hbetween hc
    have hcloses := h.closes
    rw [hcalls] at hcloses hfresh
    have hlife : ClosesOpen (afterCall (openFds before) (.accept fd)) between :=
      ((closesOpen_append _ _ _).1 ((closesOpen_append _ _ _).1 hcloses).2.2).1
    have hnew := ((freshAfter_append _ _ _).1 hfresh.append.2.2).2.1 fd hc
    rcases open_life between hlife hbetween (hgiven (openFds before) fd) with
      ⟨-, hopen⟩ | ⟨hcount, -⟩
    · rw [hnew] at hopen
      cases hopen
    · exact hcount

/-- In every state that a worker with `n` slots reaches, the free stack has exactly the
slots that are not in use, each once; `nactive` counts the others; and as long as the
kernel gives no number of an open descriptor away, every client socket has exactly one
slot, or it was closed once. Closing a slot that is not in use changes nothing. -/
theorem reachable_kept (site : Site) (fuel : Nat) {n : Nat} (hn : n ≤ UINT16_MAX)
    (as : List Action) : ∀ w ∈ runStates (Worker.step site fuel) (Worker.start n) as,
      w.Manned ∧ w.freeStack.length ≤ n ∧ (FreshCalls w.calls → w.ClientsKept) ∧
        ∀ (k : Nat) (s : Slot) (sched : Schedule) (disk : Disk), w.slots[k]? = some s →
          s.active = false → (w.load s sched disk).slotClose k = w.load s sched disk := by
  intro w hw
  have hsteady := reachable_steady site fuel n as w hw
  have hmanned := reachable_manned site fuel n as w hw
  refine ⟨hmanned, ?_, fun hfresh => ?_, fun k s sched disk _ hoff => Turn.slotClose_idle k hoff⟩
  · rw [← hsteady.count]
    exact hmanned.length_le
  · exact (reachable_accounted site fuel hn as w hw hfresh).kept (hsteady.sane hn hfresh) hfresh

end Clients

end Worker

/-- The first client is served, the second one has waited in the queue for too long. -/
def twoClients : List Action :=
  [.accept (some 7) 0 0 .quiet .quiet, .accept (some 8) 0 6000 .quiet .quiet]

theorem reachable_kept_two :
    ∃ w ∈ runStates (Worker.step proxySite 9) (Worker.start 2) twoClients,
      w.Manned ∧ w.freeStack = [1] ∧ w.ClientsKept := by
  have hrun : (runTo (Worker.step proxySite 9) (Worker.start 2) twoClients).any (fun w =>
      decide (FreshCalls w.calls ∧ w.freeStack = [1])) = true := by
    decide +kernel
  obtain ⟨w, hw, hfacts⟩ := (Option.any_eq_true ..).1 hrun
  have hall : FreshCalls w.calls ∧ w.freeStack = [1] := of_decide_eq_true hfacts
  obtain ⟨hmanned, -, hkept, -⟩ :=
    Worker.reachable_kept proxySite 9 (by decide) twoClients w (runTo_mem hw)
  exact ⟨w, runTo_mem hw, hmanned, hall.2, hkept hall.1⟩

end TinyServer.Serve
