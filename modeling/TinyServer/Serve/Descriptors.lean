import TinyServer.Serve.Ledger

/-!
# The descriptors of a worker over its runs

The descriptors of a worker are those of its cache, of its idle pool and of its slots
(`Worker.ledger`). One step handles some slots, and only moves their descriptors
(`Passes`). By induction over the steps the ledger is `Sound` in every state that a worker
reaches, and every upstream socket is connected to where it should be.
-/

set_option autoImplicit false

namespace TinyServer.Serve

open TinyServer.Http TinyServer.Net TinyServer.Proxy TinyServer.Static TinyServer.Routing
open TinyServer.Lib
open TinyServer.Net.Holding

namespace Slot

/-- The descriptor of the cache that the connection of the slot holds. -/
def holds (s : Slot) : Option Nat := if s.hc.fileOwned then none else s.hc.fileFd

/-- The descriptors that are the slot's own. -/
def owns (s : Slot) : Part → Option Nat
  | .client => if s.active then s.hc.fd else none
  | .upstream => s.px.fd
  | .own => if s.hc.fileOwned then s.hc.fileFd else none
  | .opened => none

/-- A slot between two steps. -/
structure Fit (s : Slot) : Prop where
  fresh : s.hc.phase = .read → s.hc.fileFd = none ∧ s.arena = 0
  closed : s.active = false → s.hc.fileFd = none ∧ s.px.fd = none
  calls : s.wire.calls = []

theorem Fit.unused : Slot.unused.Fit := ⟨fun _ => ⟨rfl, rfl⟩, fun _ => ⟨rfl, rfl⟩, rfl⟩

end Slot

namespace Worker

/-- How many connections hold the descriptor `fd` of the cache. -/
def holders (w : Worker) (fd : Nat) : Nat := w.slots.countP fun s => decide (s.holds = some fd)

/-- Where the worker keeps its descriptors, and what its slots send from. -/
def ledger (w : Worker) : Holding Place where
  place
    | .cached i => FileCache.entryFd (w.cache.entries i)
    | .retired i => (w.cache.retired i).map fun r => (r.fd, r.uses)
    | .idle n => idlePlace w.pool n
    | .slot k part => ((w.slots[k]?).bind fun s => s.owns part).map fun fd => (fd, 0)
  held k := (w.slots[k]?).bind Slot.holds
  dropped := w.cache.dropped

/-- What a worker with `n` slots keeps to between two steps. Free slots are not active. -/
structure Fit (n : Nat) (w : Worker) : Prop where
  count : w.slots.length = n
  cache : w.cache.Ok
  slots : ∀ s ∈ w.slots, s.Fit
  distinct : w.freeStack.Nodup
  free : ∀ j ∈ w.freeStack, ∃ s, w.slots[j]? = some s ∧ s.active = false

/-- Every idle socket is connected to the address that its entry records, every upstream
socket to the address of its exchange, and so was every idle socket that was found. -/
structure Peers (w : Worker) : Prop where
  pool : ∀ e ∈ w.pool, Peer w.calls e.fd e.addr e.len
  slots : ∀ s ∈ w.slots, ∀ fd, s.px.fd = some fd → Peer w.calls fd s.px.upAddr s.px.upLen
  takes : ∀ s ∈ w.slots, ∀ k ∈ s.trail.takes, k.Right

/-- The ledger of a worker with `n` slots is sound. -/
structure Sane (n : Nat) (w : Worker) : Prop where
  sound : Sound Place.kind n (openFds w.calls) w.ledger
  peers : w.Peers

section Ledger

variable {w : Worker} {s : Slot} {j : Nat}

theorem holders_eq (w : Worker) (fd : Nat) :
    holdersOf w.ledger.held w.slots.length fd = w.holders fd := by
  unfold holders
  show holdersOf (fun k => (w.slots[k]?).bind Slot.holds) _ fd = _
  induction w.slots using List.reverseRecOn with
  | nil => rfl
  | append_singleton l s ih =>
      rw [List.length_append, List.length_singleton, holdersOf_succ, List.countP_append, ← ih,
        List.countP_singleton, List.getElem?_concat_length, Option.bind_some]
      have hsame : holdersOf (fun k => ((l ++ [s])[k]?).bind Slot.holds) l.length fd =
          holdersOf (fun k => (l[k]?).bind Slot.holds) l.length fd := by
        apply holdersOf_congr
        intro k hk
        rw [List.getElem?_append_left hk]
      rw [hsame]
      simp only [decide_eq_true_eq]

theorem ledger_plain (w : Worker) : Plain w.ledger := by
  constructor
  · intro k fd n h
    obtain ⟨e, -, he⟩ := Option.map_eq_some_iff.1 h
    exact (congrArg Prod.snd he).symm
  · intro k part fd n h
    obtain ⟨e, -, he⟩ := Option.map_eq_some_iff.1 h
    exact (congrArg Prod.snd he).symm

theorem turnLedger_upstream (t : Turn) (j : Nat) (d : Holding Place) (k : Nat) :
    (t.ledger j d).place (.slot k .upstream) = if k = j then t.px.fd.map fun fd => (fd, 0)
      else d.place (.slot k .upstream) := put_place_ne _ _ nofun

/-- A handler of a slot leaves the descriptors of the others to the worker. -/
theorem ledger_eq {w' : Worker} {t : Turn} {d : Holding Place} (hcache : w'.cache = t.cache)
    (hpool : w'.pool = t.pool) (hslot : w'.slots[j]? = some (slotOf t))
    (hplace : ∀ k part, k ≠ j → w'.ledger.place (.slot k part) = d.place (.slot k part))
    (hheld : ∀ k, k ≠ j → w'.ledger.held k = d.held k) : w'.ledger = t.ledger j d := by
  have hown : ∀ part, w'.ledger.place (.slot j part) =
      ((slotOf t).owns part).map fun fd => (fd, 0) := by
    intro part
    show ((w'.slots[j]?).bind fun s => s.owns part).map _ = _
    rw [hslot, Option.bind_some]
  refine eq_of (fun p => ?_) (fun k => ?_) ?_
  · cases p with
    | cached i =>
        show FileCache.entryFd (w'.cache.entries i) = _
        rw [hcache]
        rfl
    | retired i =>
        show (w'.cache.retired i).map _ = _
        rw [hcache]
        rfl
    | idle n =>
        show idlePlace w'.pool n = _
        rw [hpool]
        rfl
    | slot k part =>
        by_cases hk : k = j
        · rw [hk, hown]
          cases part with
          | client => exact (t.ledger_client j d).symm
          | upstream => exact ((turnLedger_upstream t j d j).trans (if_pos rfl)).symm
          | own =>
              refine Eq.trans ?_ (if_pos rfl).symm
              show (if t.hc.fileOwned then t.hc.fileFd else none).map _ = _
              split
              · rfl
              · rfl
          | opened => exact (if_pos rfl).symm
        · rw [hplace k part hk]
          cases part with
          | client =>
              have hne : Place.slot k .client ≠ .slot j .client := fun he => hk (by cases he; rfl)
              exact (put_place_ne _ _ hne).symm
          | upstream => exact ((turnLedger_upstream t j d k).trans (if_neg hk)).symm
          | own =>
              refine ((if_neg hk).trans ?_).symm
              exact put_place_ne _ _ nofun
          | opened =>
              refine ((if_neg hk).trans ?_).symm
              exact put_place_ne _ _ nofun
  · by_cases hk : k = j
    · rw [hk]
      refine Eq.trans ?_ (if_pos rfl).symm
      show (w'.slots[j]?).bind Slot.holds = _
      rw [hslot]
      rfl
    · rw [hheld k hk]
      exact (if_neg hk).symm
  · show w'.cache.dropped = t.cache.dropped
    rw [hcache]

theorem slotOf_load (w : Worker) (sched : Schedule) (disk : Disk) (hs : s.wire.calls = []) :
    slotOf (w.load s sched disk) = s := by
  show { s with wire := { s.wire with calls := [] } } = s
  rw [← hs]

theorem load_ledger {sched : Schedule} {disk : Disk} (hs : w.slots[j]? = some s)
    (hcalls : s.wire.calls = []) : (w.load s sched disk).ledger j w.ledger = w.ledger := by
  symm
  refine ledger_eq rfl rfl ?_ (fun _ _ _ => rfl) fun _ _ => rfl
  rw [hs, slotOf_load w sched disk hcalls]

theorem store_slots (t : Turn) {k : Nat} (hk : k ≠ j) :
    (w.store j t).slots[k]? = w.slots[k]? := List.getElem?_set_ne (Ne.symm hk)

theorem store_self (t : Turn) (hs : w.slots[j]? = some s) :
    (w.store j t).slots[j]? = some (slotOf t) :=
  List.getElem?_set_self (List.getElem?_eq_some_iff.1 hs).1

theorem store_ledger (t : Turn) (hs : w.slots[j]? = some s) :
    (w.store j t).ledger = t.ledger j w.ledger := by
  refine ledger_eq rfl rfl (store_self t hs) (fun k part hk => ?_) fun k hk => ?_
  · show (((w.store j t).slots[k]?).bind _).map _ = _
    rw [store_slots t hk]
    rfl
  · show ((w.store j t).slots[k]?).bind _ = _
    rw [store_slots t hk]
    rfl

end Ledger

/-! ## Steps -/

/-- What a slot holds is open. -/
theorem held_open {n : Nat} {w : Worker} (hfit : w.Fit n) (hsane : w.Sane n) {k fd : Nat}
    (hheld : w.ledger.held k = some fd) : openFds w.calls fd = some .file := by
  apply hsane.sound.counted.held
  obtain ⟨s, hs, -⟩ := Option.bind_eq_some_iff.1 hheld
  have hk : k < n := by
    rw [← hfit.count]
    exact (List.getElem?_eq_some_iff.1 hs).1
  exact Nat.pos_iff_ne_zero.1 (holdersOf_pos fd hk hheld)

/-- `w'` comes from `w` by moves of the slots in `T`. Nothing that another slot holds is
closed. -/
def Passes (n : Nat) (T : Nat → Prop) (w w' : Worker) : Prop :=
  w.Fit n → w'.Fit n ∧ (∀ k, ¬ T k → w'.slots[k]? = w.slots[k]?) ∧
    ∃ cs, w'.calls = w.calls ++ cs ∧
      (n ≤ UINT16_MAX → w.Sane n → FreshAfter (openFds w.calls) cs → w'.Sane n ∧
        ∀ k fd, ¬ T k → w.ledger.held k = some fd → ControlCall.close fd ∉ cs)

section Passes

variable {n : Nat} {T T' : Nat → Prop} {w w' w'' : Worker}

theorem Passes.refl (n : Nat) (T : Nat → Prop) (w : Worker) : Passes n T w w := by
  intro hfit
  refine ⟨hfit, fun _ _ => rfl, [], (List.append_nil _).symm, fun _ hsane _ => ?_⟩
  exact ⟨hsane, fun _ _ _ _ => List.not_mem_nil⟩

theorem Passes.mono (h : Passes n T w w') (hsub : ∀ k, T k → T' k) : Passes n T' w w' := by
  intro hfit
  obtain ⟨hfit', hslots, cs, hcalls, hsane⟩ := h hfit
  refine ⟨hfit', fun k hk => hslots k (mt (hsub k) hk), cs, hcalls, fun hn hs hfresh => ?_⟩
  obtain ⟨hs', hclose⟩ := hsane hn hs hfresh
  exact ⟨hs', fun k fd hk => hclose k fd (mt (hsub k) hk)⟩

theorem Passes.trans (h : Passes n T w w') (h' : Passes n T w' w'') : Passes n T w w'' := by
  intro hfit
  obtain ⟨hfit', hslots, cs, hcalls, hsane⟩ := h hfit
  obtain ⟨hfit'', hslots', cs', hcalls', hsane'⟩ := h' hfit'
  refine ⟨hfit'', fun k hk => (hslots' k hk).trans (hslots k hk), cs ++ cs', ?_,
    fun hn hs hfresh => ?_⟩
  · rw [hcalls', hcalls, List.append_assoc]
  · rw [freshAfter_append, ← openFds_append, ← hcalls] at hfresh
    obtain ⟨hs', hclose⟩ := hsane hn hs hfresh.1
    obtain ⟨hs'', hclose'⟩ := hsane' hn hs' hfresh.2
    refine ⟨hs'', fun k fd hk hheld hmem => ?_⟩
    have hsame : w'.ledger.held k = w.ledger.held k := by
      show (w'.slots[k]?).bind _ = _
      rw [hslots k hk]
      rfl
    rcases List.mem_append.1 hmem with hmem | hmem
    · exact hclose k fd hk hheld hmem
    · exact hclose' k fd hk (hsame.trans hheld) hmem

end Passes

/-- The handler `t` of the slot `j` starts from the worker `w`. -/
structure Enters (j : Nat) (w : Worker) (t : Turn) : Prop where
  fit : t.Fit
  active : t.active = true
  sublist : t.freeStack.Sublist w.freeStack
  busy : j ∉ t.freeStack
  moves : ∃ cs, t.log = w.calls ++ cs ∧ (∀ c ∈ cs, c.dials = false) ∧
    PlaceMoves j w.ledger cs (t.ledger j w.ledger)
  peers : w.Peers → t.Peers

section Store

variable {n j : Nat} {w : Worker} {s : Slot} {t t' : Turn}

theorem mem_store {x : Slot} (hs : w.slots[j]? = some s) (hx : x ∈ (w.store j t).slots) :
    x = slotOf t ∨ ∃ k, k ≠ j ∧ w.slots[k]? = some x := by
  obtain ⟨k, hk⟩ := List.mem_iff_getElem?.1 hx
  by_cases hkj : k = j
  · rw [hkj, store_self t hs] at hk
    exact Or.inl (Option.some.inj hk).symm
  · rw [store_slots t hkj] at hk
    exact Or.inr ⟨k, hkj, hk⟩

/-- What a handler leaves is stored. -/
theorem store_fit (hfit : w.Fit n) (hs : w.slots[j]? = some s) (ht : t.Fit)
    (hdistinct : t.freeStack.Nodup)
    (hfree : ∀ k ∈ t.freeStack, k ∈ w.freeStack ∧ k ≠ j ∨ k = j ∧ t.active = false) :
    (w.store j t).Fit n := by
  refine ⟨(List.length_set ..).trans hfit.count, ht.cache, fun x hx => ?_, hdistinct,
    fun k hk => ?_⟩
  · rcases mem_store hs hx with rfl | ⟨k, -, hk⟩
    · exact ⟨ht.fresh, ht.closed, rfl⟩
    · exact hfit.slots x (List.mem_of_getElem? hk)
  · rcases hfree k hk with ⟨hold, hne⟩ | ⟨rfl, hoff⟩
    · obtain ⟨x, hx, hoff⟩ := hfit.free k hold
      exact ⟨x, (store_slots t hne).trans hx, hoff⟩
    · exact ⟨slotOf t, store_self t hs, hoff⟩

/-- The rule for a handler of an active slot. -/
theorem store_passes (n : Nat) (hs : w.slots[j]? = some s) (henter : Enters j w t)
    (hgoes : Turn.Goes j t t') : Passes n (· = j) w (w.store j t') := by
  intro hfit
  obtain ⟨ht', hfrees, cs, hlog, hmoves, htracks⟩ := hgoes henter.fit
  obtain ⟨cs₀, hlog₀, hdial, hmoves₀⟩ := henter.moves
  have hdistinct : t.freeStack.Nodup := henter.sublist.nodup hfit.distinct
  have hsub : ∀ k ∈ t.freeStack, k ∈ w.freeStack ∧ k ≠ j := fun k hk =>
    ⟨henter.sublist.subset hk, fun he => henter.busy (he ▸ hk)⟩
  refine ⟨?_, fun k hk => store_slots t' hk, cs₀ ++ cs, ?_, fun hn hsane hfresh => ?_⟩
  · rcases hfrees with ⟨-, hfree⟩ | ⟨-, hoff, hfree⟩
    · refine store_fit hfit hs ht' (by rw [hfree]; exact hdistinct) fun k hk => ?_
      rw [hfree] at hk
      exact Or.inl (hsub k hk)
    · refine store_fit hfit hs ht' ?_ fun k hk => ?_
      · rw [hfree]
        exact List.nodup_cons.2 ⟨henter.busy, hdistinct⟩
      · rw [hfree] at hk
        rcases List.mem_cons.1 hk with rfl | hk
        · exact Or.inr ⟨rfl, hoff⟩
        · exact Or.inl (hsub k hk)
  · show t'.log = _
    rw [hlog, hlog₀, List.append_assoc]
  · have hj : j < n := by
      rw [← hfit.count]
      exact (List.getElem?_eq_some_iff.1 hs).1
    have hall := hmoves₀.trans (hmoves w.ledger (ledger_plain w))
    rw [freshAfter_append] at hfresh
    have hsound₀ := hmoves₀.sound hj hn hsane.sound hfresh.1
    rw [← openFds_append, ← hlog₀] at hfresh hsound₀
    have htrack := htracks n w.ledger (ledger_plain w) hj hn hsound₀ hfresh.2
    have hpeers := htrack.peers (henter.peers hsane.peers)
    have hsound := (hmoves w.ledger (ledger_plain w)).sound hj hn hsound₀ hfresh.2
    rw [← openFds_append, ← hlog] at hsound
    refine ⟨⟨?_, ⟨hpeers.link.pool, fun x hx fd hfd => ?_, fun x hx => ?_⟩⟩, fun k fd hk hheld => ?_⟩
    · rw [store_ledger t' hs]
      exact hsound
    · rcases mem_store hs hx with rfl | ⟨k, hk, hslot⟩
      · exact hpeers.link.upstream fd hfd rfl
      · have hplace : w.ledger.place (.slot k .upstream) = some (fd, 0) := by
          show ((w.slots[k]?).bind fun s => s.owns .upstream).map _ = _
          rw [hslot, Option.bind_some, show x.owns .upstream = x.px.fd from rfl, hfd]
          rfl
        refine (hsane.peers.slots x (List.mem_of_getElem? hslot) fd hfd).congr ?_
        refine (htrack.others k fd 0 hk hplace).trans ?_
        rw [hlog₀]
        exact connectedTo_still fd hdial
    · rcases mem_store hs hx with rfl | ⟨k, -, hslot⟩
      · exact hpeers.takes
      · exact hsane.peers.takes x (List.mem_of_getElem? hslot)
    · have hkn : k < n := by
        obtain ⟨x, hx, -⟩ := Option.bind_eq_some_iff.1 hheld
        rw [← hfit.count]
        exact (List.getElem?_eq_some_iff.1 hx).1
      refine hall.closed hj hn hsane.sound ?_ hkn hk hheld
      rw [freshAfter_append, ← openFds_append, ← hlog₀]
      exact hfresh

end Store

/-! ## Events and deadlines -/

section Steps

variable {n j : Nat} {w : Worker} {s : Slot}

/-- A slot that is active starts as the worker left it. -/
theorem load_enters (sched : Schedule) (disk : Disk) (hfit : w.Fit n) (hs : w.slots[j]? = some s)
    (hactive : s.active = true) : Enters j w (w.load s sched disk) := by
  have hslot := hfit.slots s (List.mem_of_getElem? hs)
  have hlog : (w.load s sched disk).log = w.calls := by
    show w.calls ++ s.wire.calls = _
    rw [hslot.calls, List.append_nil]
  refine ⟨⟨hfit.cache, hslot.fresh, hslot.closed⟩, hactive, List.Sublist.refl _, fun hmem => ?_,
    ⟨[], ?_, nofun, ?_⟩, fun hpeers => ⟨⟨?_, fun fd hfd _ => ?_⟩, ?_⟩⟩
  · obtain ⟨x, hx, hoff⟩ := hfit.free j hmem
    rw [Option.some.inj (hs.symm.trans hx), hoff] at hactive
    cases hactive
  · rw [hlog, List.append_nil]
  · rw [load_ledger hs hslot.calls]
    exact .refl _
  · rw [hlog]
    exact hpeers.pool
  · rw [hlog]
    exact hpeers.slots s (List.mem_of_getElem? hs) fd hfd
  · exact hpeers.takes s (List.mem_of_getElem? hs)

theorem onSlot_passes {site : Site} {fuel now : Nat} {ev : Event} {sched : Schedule} {disk : Disk}
    {w' : Worker} (n : Nat)
    (h : w.onSlot ev.idx sched disk (Turn.onEvent site fuel now ev) = some w') :
    Passes n (· = ev.idx) w w' := by
  unfold onSlot at h
  split at h
  · rw [← Option.some.inj h]
    exact .refl n _ w
  rename_i s hs
  split at h
  · rw [← Option.some.inj h]
    exact .refl n _ w
  rename_i hactive
  obtain ⟨t', ht', rfl⟩ := Option.map_eq_some_iff.1 h
  intro hfit
  have henter := load_enters sched disk hfit hs (by simpa using hactive)
  exact store_passes n hs henter (Turn.onEvent_goes henter.fit henter.active ht') hfit

/-- The slot is closed by `closeSlot`. -/
def Closes (close : Slot → Bool) (w : Worker) (k : Nat) : Prop :=
  ∃ s, w.slots[k]? = some s ∧ s.active = true ∧ close s = true

theorem closeSlot_passes (n : Nat) (close : Slot → Bool) (w : Worker) (idx : Nat) :
    Passes n (fun k => k = idx ∧ Closes close w k) w (closeSlot close w idx) := by
  unfold closeSlot
  split
  · exact .refl n _ w
  rename_i s hs
  split
  · rename_i hcloses
    have hboth : s.active = true ∧ close s = true := by simpa using hcloses
    intro hfit
    have henter := load_enters .quiet .quiet hfit hs hboth.1
    have hpass := store_passes n hs henter (Turn.slotClose_goes (w.load s .quiet .quiet) idx)
    exact hpass.mono (fun k hk => ⟨hk, s, hk ▸ hs, hboth⟩) hfit
  · exact .refl n _ w

/-- A sweep over slots passes each of them once. -/
theorem closeSlots_passes (n : Nat) (close : Slot → Bool) (l : List Nat) : ∀ w : Worker,
    Passes n (fun k => k ∈ l ∧ Closes close w k) w (l.foldl (closeSlot close) w) := by
  induction l with
  | nil => exact fun w => .refl n _ w
  | cons idx l ih =>
      intro w hfit
      have hfirst := closeSlot_passes n close w idx
      obtain ⟨-, hslots, -⟩ := hfirst hfit
      refine Passes.trans (hfirst.mono fun k hk => ⟨List.mem_cons.2 (Or.inl hk.1), hk.2⟩)
        ((ih _).mono fun k hk => ?_) hfit
      obtain ⟨hmem, hcloses⟩ := hk
      by_cases hk : k = idx ∧ Closes close w k
      · exact ⟨List.mem_cons_of_mem _ hmem, hk.2⟩
      · unfold Closes at hcloses
        rw [hslots k hk] at hcloses
        exact ⟨List.mem_cons_of_mem _ hmem, hcloses⟩

/-- The deadline sweep closes the late slots and touches no other. -/
theorem sweepDeadlines_passes (n : Nat) (w : Worker) (now : Nat) :
    Passes n (Closes (fun s => decide (s.hc.deadlineMs ≤ now)) w) w (w.sweepDeadlines now) := by
  unfold sweepDeadlines
  split
  · exact .refl n _ w
  · exact (closeSlots_passes n _ _ w).mono fun k hk => hk.2

end Steps

/-! ## The end -/

section Exit

variable {n : Nat} {w : Worker}

theorem closeSlot_length (close : Slot → Bool) (w : Worker) (idx : Nat) :
    (closeSlot close w idx).slots.length = w.slots.length := by
  unfold closeSlot
  split
  · rfl
  · split
    · exact List.length_set ..
    · rfl

/-- `slot_close` on every slot leaves no slot active. -/
theorem closeAll_inactive (l : List Nat) : ∀ {w : Worker}, (∀ k s, w.slots[k]? = some s →
    k ∉ l → s.active = false) →
    ∀ s ∈ (l.foldl (closeSlot fun _ => true) w).slots, s.active = false := by
  induction l with
  | nil =>
      intro w h s hs
      obtain ⟨k, hk⟩ := List.mem_iff_getElem?.1 hs
      exact h k s hk List.not_mem_nil
  | cons idx l ih =>
      intro w h
      apply ih
      intro k s hk hmem
      unfold closeSlot at hk
      split at hk
      · rename_i hnone
        refine h k s hk fun hin => ?_
        rcases List.mem_cons.1 hin with rfl | hin
        · rw [hk] at hnone
          cases hnone
        · exact hmem hin
      rename_i x hx
      by_cases hki : k = idx
      · split at hk
        · rename_i hactive
          have hon : x.active = true := by simpa using hactive
          rw [hki, store_self _ hx] at hk
          rw [← Option.some.inj hk]
          show (Turn.slotClose idx (w.load x .quiet .quiet)).active = false
          unfold Turn.slotClose
          rw [show (w.load x .quiet .quiet).active = true from hon]
          rfl
        · rename_i hactive
          rw [hki, hx] at hk
          rw [← Option.some.inj hk]
          simpa using hactive
      · have hsame : w.slots[k]? = some s := by
          split at hk
          · rwa [store_slots _ hki] at hk
          · exact hk
        exact h k s hsame fun hin => (List.mem_cons.1 hin).elim hki hmem

/-- Nobody holds a descriptor. -/
def Idle (w : Worker) : Prop := ∀ s ∈ w.slots, s.holds = none

theorem Idle.unused (h : w.Idle) (hs : Sound Place.kind n (openFds w.calls) w.ledger) :
    Unused w.ledger := by
  intro p fd m hp
  rw [hs.counted.count p fd m hp]
  unfold holdersOf
  apply List.countP_eq_zero.2
  intro k _ hheld
  obtain ⟨s, hs, hfd⟩ := Option.bind_eq_some_iff.1 (of_decide_eq_true hheld)
  rw [h s (List.mem_of_getElem? hs)] at hfd
  cases hfd

theorem ledger_setEntry (w : Worker) (i : Fin FILE_CACHE_SLOTS) (s : CacheSlot) :
    { w with cache := w.cache.setEntry i s }.ledger =
      w.ledger.put (.cached i) (FileCache.entryFd s) := by
  refine eq_of (fun p => ?_) (fun _ => rfl) rfl
  by_cases hp : p = .cached i
  · rw [hp, put_place_self]
    show FileCache.entryFd (Function.update w.cache.entries i s i) = _
    rw [Function.update_self]
  · rw [put_place_ne _ _ hp]
    cases p with
    | cached k =>
        have hk : k ≠ i := fun he => hp (congrArg _ he)
        show FileCache.entryFd (Function.update w.cache.entries i s k) = _
        rw [Function.update_of_ne hk]
        rfl
    | retired | idle | slot => rfl

theorem ledger_setRetired (w : Worker) (i : Fin FILE_CACHE_RETIRED) (r : Option RetiredFd) :
    { w with cache := w.cache.setRetired i r }.ledger =
      w.ledger.put (.retired i) (r.map fun r => (r.fd, r.uses)) := by
  refine eq_of (fun p => ?_) (fun _ => rfl) rfl
  by_cases hp : p = .retired i
  · rw [hp, put_place_self]
    show (Function.update w.cache.retired i r i).map _ = _
    rw [Function.update_self]
  · rw [put_place_ne _ _ hp]
    cases p with
    | retired k =>
        have hk : k ≠ i := fun he => hp (congrArg _ he)
        show (Function.update w.cache.retired i r k).map _ = _
        rw [Function.update_of_ne hk]
        rfl
    | cached | idle | slot => rfl

/-- The worker `w` with the cache of `h` and the calls made so far. -/
def during (w : Worker) (h : Handler) : Worker :=
  { w with cache := h.cache, calls := w.calls ++ h.kernel.wire.calls }

/-- The cache of `h` comes from that of `w` by closing files that nobody uses. -/
def Clears (w : Worker) (h : Handler) : Prop :=
  Sheds w.ledger h.kernel.wire.calls (w.during h).ledger

theorem clearEntry_clears (hunused : Unused w.ledger) (h : Handler) (hs : Clears w h)
    (i : Fin FILE_CACHE_SLOTS) :
    Clears w (match h.cache.entries i with
      | .live e => { h.close e.fd with cache := h.cache.setEntry i .empty }
      | _ => h) := by
  split
  · rename_i e he
    have hplace : (w.during h).ledger.place (.cached i) = some (e.fd, e.uses) := by
      show FileCache.entryFd (h.cache.entries i) = _
      rw [he]
      rfl
    have hzero : e.uses = 0 := hs.unused hunused _ _ _ hplace
    rw [hzero] at hplace
    have hset := ledger_setEntry (w.during h) i .empty
    rw [show FileCache.entryFd .empty = none from rfl] at hset
    have hclose := hs.close _ _ hplace
    rw [← hset] at hclose
    exact hclose
  · exact hs

theorem clearRetired_clears (hunused : Unused w.ledger) (h : Handler) (hs : Clears w h)
    (i : Fin FILE_CACHE_RETIRED) :
    Clears w (match h.cache.retired i with
      | some r => { h.close r.fd with cache := h.cache.setRetired i none }
      | none => h) := by
  split
  · rename_i r hr
    have hplace : (w.during h).ledger.place (.retired i) = some (r.fd, r.uses) := by
      show (h.cache.retired i).map _ = _
      rw [hr]
      rfl
    have hzero : r.uses = 0 := hs.unused hunused _ _ _ hplace
    rw [hzero] at hplace
    have hset := ledger_setRetired (w.during h) i none
    rw [Option.map_none] at hset
    have hclose := hs.close _ _ hplace
    rw [← hset] at hclose
    exact hclose
  · exact hs

/-- A loop that empties one place of the retired list after the other. -/
theorem clearRetired_none {f : Handler → Fin FILE_CACHE_RETIRED → Handler}
    (hself : ∀ h i, (f h i).cache.retired i = none)
    (hkeep : ∀ h i k, h.cache.retired k = none → (f h i).cache.retired k = none)
    (l : List (Fin FILE_CACHE_RETIRED)) : ∀ h : Handler,
    (∀ i, i ∉ l → h.cache.retired i = none) → ∀ i, (l.foldl f h).cache.retired i = none := by
  induction l with
  | nil => exact fun h hnone i => hnone i List.not_mem_nil
  | cons k l ih =>
      intro h hnone
      apply ih
      intro i hi
      by_cases hik : i = k
      · rw [hik]
        exact hself h k
      · exact hkeep h k i (hnone i fun hmem => (List.mem_cons.1 hmem).elim hik hi)

theorem staticCacheClear_retired (hok : w.cache.Ok) (i : Fin FILE_CACHE_RETIRED) :
    w.staticCacheClear.cache.retired i = none := by
  show (Handler.staticCacheClear ⟨unusedConn, 0, w.cache, .quiet, _⟩).cache.retired i = none
  unfold Handler.staticCacheClear
  split
  · rename_i hready
    exact hok.retired (by simpa using hready) i
  · extract_lets h₁ h₂
    have hloop : h₂ = List.foldl _ h₁ (List.finRange FILE_CACHE_RETIRED) := rfl
    have hnone : h₂.cache.retired i = none := by
      rw [hloop]
      refine clearRetired_none (fun h i => ?_) (fun h i k hk => ?_) _ _
        (fun i hi => absurd (List.mem_finRange i) hi) i
      · split
        · exact Function.update_self ..
        · assumption
      · split
        · by_cases hki : k = i
          · rw [hki]
            exact Function.update_self ..
          · exact (Function.update_of_ne hki _ _).trans hk
        · exact hk
    clear_value h₂
    exact hnone

theorem Clears.unready {h : Handler} (hs : Clears w h) :
    Clears w { h with cache := { h.cache with ready := false } } := hs

/-- `static_cache_clear` closes the files of the cache. -/
theorem staticCacheClear_sheds (hunused : Unused w.ledger) :
    ∃ cs, w.staticCacheClear.calls = w.calls ++ cs ∧
      Sheds w.ledger cs w.staticCacheClear.ledger := by
  refine ⟨_, rfl, ?_⟩
  have hstart : Clears w ⟨unusedConn, 0, w.cache, .quiet, ⟨.quiet, .empty⟩⟩ := .refl _
  show Clears w (Handler.staticCacheClear ⟨unusedConn, 0, w.cache, .quiet, _⟩)
  unfold Handler.staticCacheClear
  split
  · exact hstart
  · extract_lets h₁ h₂
    have hentries : Clears w h₁ :=
      List.foldlRecOn (motive := Clears w) _ _ hstart
        fun h hs i _ => clearEntry_clears hunused h hs i
    have hretired : Clears w h₂ :=
      List.foldlRecOn (motive := Clears w) _ _ hentries
        fun h hs i _ => clearRetired_clears hunused h hs i
    exact hretired.unready

/-- `proxy_pool_clear` closes the idle sockets from the last one on. -/
theorem proxyPoolClear_sheds (pool : List ProxyIdle) : ∀ {w : Worker}, w.pool = pool →
    Unused w.ledger → ∃ cs, w.proxyPoolClear.calls = w.calls ++ cs ∧
      Sheds w.ledger cs w.proxyPoolClear.ledger := by
  induction pool using List.reverseRecOn with
  | nil =>
      intro w hpool _
      have hsame : w.proxyPoolClear = w := by
        unfold proxyPoolClear
        rw [hpool]
        show { w with pool := [], calls := w.calls ++ [] } = w
        rw [List.append_nil, ← hpool]
      rw [hsame]
      exact ⟨[], (List.append_nil _).symm, .refl _⟩
  | append_singleton pool e ih =>
      intro w hpool hunused
      have hplace : w.ledger.place (.idle pool.length) = some (e.fd, 0) := by
        show idlePlace w.pool pool.length = _
        unfold idlePlace
        rw [hpool, List.getElem?_concat_length]
        rfl
      have hput : w.ledger.put (.idle pool.length) none =
          ({ w with pool := pool, calls := w.calls ++ [.close e.fd] } : Worker).ledger := by
        refine eq_of (fun p => ?_) (fun _ => rfl) rfl
        by_cases hp : p = .idle pool.length
        · rw [hp, put_place_self]
          show none = idlePlace pool pool.length
          unfold idlePlace
          rw [List.getElem?_eq_none (Nat.le_refl _)]
          rfl
        · rw [put_place_ne _ _ hp]
          cases p with
          | idle k =>
              show idlePlace w.pool k = idlePlace pool k
              unfold idlePlace
              rw [hpool]
              by_cases hk : k < pool.length
              · rw [List.getElem?_append_left hk]
              · have hne : k ≠ pool.length := fun he => hp (by rw [he])
                have hlen : (pool ++ [e]).length = pool.length + 1 := by
                  rw [List.length_append, List.length_singleton]
                rw [List.getElem?_eq_none (l := pool) (by omega),
                  List.getElem?_eq_none (l := pool ++ [e]) (by omega)]
          | cached | retired | slot => rfl
      have hclose := (Sheds.refl w.ledger).close _ _ hplace
      rw [hput] at hclose
      obtain ⟨cs, hcalls, hsheds⟩ :=
        ih (w := { w with pool := pool, calls := w.calls ++ [.close e.fd] }) rfl
          (hclose.unused hunused)
      have hsame : w.proxyPoolClear =
          ({ w with pool := pool, calls := w.calls ++ [.close e.fd] } : Worker).proxyPoolClear := by
        unfold proxyPoolClear
        rw [hpool, List.reverse_append, List.append_assoc]
        rfl
      rw [hsame]
      refine ⟨[.close e.fd] ++ cs, ?_, hclose.trans hsheds⟩
      rw [hcalls, List.append_assoc]

/-- A worker that has no slot in use closes what is left. -/
theorem clear_sheds (hidle : w.Idle) (hs : Sound Place.kind n (openFds w.calls) w.ledger) :
    ∃ cs, w.staticCacheClear.proxyPoolClear.calls = w.calls ++ cs ∧
      Sheds w.ledger cs w.staticCacheClear.proxyPoolClear.ledger := by
  obtain ⟨cs, hcalls, hsheds⟩ := staticCacheClear_sheds (hidle.unused hs)
  obtain ⟨cs', hcalls', hsheds'⟩ :=
    proxyPoolClear_sheds _ rfl (hsheds.unused (hidle.unused hs))
  refine ⟨cs ++ cs', ?_, hsheds.trans hsheds'⟩
  rw [hcalls', hcalls, List.append_assoc]

end Exit

/-! ## New connections -/

section Accept

variable {n j : Nat} {w w' : Worker} {s : Slot} {free : List Nat}

/-- The slot of a new connection whose socket epoll watches. -/
def admitted (w : Worker) (s : Slot) (fd now : Nat) (free : List Nat) (sched : Schedule)
    (disk : Disk) : Turn :=
  let t := ((w.call (.accept fd)).load s sched disk).accepted fd now free
  { t with
    kernel := (t.kernel.epollCtl fd (.add ⟨true, false⟩)).2
    active := true
    armedIo := .wantRead
    nactive := t.nactive + 1 }

/-- The slot of a new connection whose socket epoll refuses. -/
def rejected (w : Worker) (idx : Nat) (s : Slot) (fd now : Nat) (free : List Nat)
    (sched : Schedule) (disk : Disk) : Turn :=
  let t := ((w.call (.accept fd)).load s sched disk).accepted fd now free
  let t := { t with kernel := (t.kernel.epollCtl fd (.add ⟨true, false⟩)).2 }
  let t := t.withHandler t.toHandler.httpConnCleanup
  { t with
    freeStack := idx :: t.freeStack
    kernel := t.kernel.close fd }

/-- Whether epoll takes the socket of a new connection. -/
def Watched (sched : Schedule) (fd : Nat) : Prop :=
  (Kernel.epollCtl ⟨sched, .empty⟩ fd (.add ⟨true, false⟩)).1 = true

/-- What `try_accept_one` can do. -/
theorem tryAcceptOne_cases {site : Site} {fuel acceptTime now : Nat} {fd : Option Nat}
    {sched : Schedule} {disk : Disk}
    (h : w.tryAcceptOne site fuel fd acceptTime now sched disk = some w') :
    w' = w ∨ (∃ fd, w' = (w.call (.accept fd)).call (.close fd)) ∨
      ∃ fd idx free s, w.freeStack = idx :: free ∧ w.slots[idx]? = some s ∧
        (w' = w.store idx (w.rejected idx s fd now free sched disk) ∨
          Watched sched fd ∧
          ∃ r t, (w.admitted s fd now free sched disk).httpConnOnRead site fuel now = some r ∧
            r.2.applyIo site fuel now idx r.1 = some t ∧ w' = w.store idx t) := by
  unfold tryAcceptOne at h
  split at h
  · cases h
  rename_i idx free hfree
  split at h
  · exact Or.inl (Option.some.inj h).symm
  rename_i fd
  extract_lets w₁ at h
  split at h
  · exact Or.inr (Or.inl ⟨fd, (Option.some.inj h).symm⟩)
  split at h
  · cases h
  rename_i s hs
  refine Or.inr (Or.inr ⟨fd, idx, free, s, hfree, hs, ?_⟩)
  extract_lets t r t₁ t₂ src at h
  split at h
  · exact Or.inl (Option.some.inj h).symm
  · rename_i hadd
    have hwatched : r.1 = true := by simpa using hadd
    split at h
    · cases h
    · rename_i io t₄ hread
      obtain ⟨t', ht', rfl⟩ := Option.map_eq_some_iff.1 h
      exact Or.inr ⟨hwatched, (io, t₄), t', hread, ht', rfl⟩

/-- The ledger of a slot that gets a new connection. -/
theorem admitted_ledger (fd now : Nat) (sched : Schedule) (disk : Disk) (hfit : w.Fit n)
    (hs : w.slots[j]? = some s) (hoff : s.active = false) :
    (w.admitted s fd now free sched disk).ledger j w.ledger =
      w.ledger.put (.slot j .client) (some (fd, 0)) := by
  have hslot := hfit.slots s (List.mem_of_getElem? hs)
  obtain ⟨hfile, hup⟩ := hslot.closed hoff
  have hload : ({ w.load s sched disk with hc := { s.hc with fileOwned := true } } : Turn).ledger j
      w.ledger = w.ledger := by
    have hsame : (w.load s sched disk).ledger j w.ledger = w.ledger := load_ledger hs hslot.calls
    refine Eq.trans ?_ hsame
    exact on_noFile j _ none rfl hfile hfile
  have hset := Turn.ledger_setClient
    { w.load s sched disk with hc := { s.hc with fileOwned := true } }
    (w.admitted s fd now free sched disk) j w.ledger rfl hfile.symm rfl hup.symm rfl
  rw [hload] at hset
  exact hset

/-- An accepted client enters a slot that was free. -/
theorem admitted_enters (fd now : Nat) (sched : Schedule) (disk : Disk) (hfit : w.Fit n)
    (hfree : w.freeStack = j :: free) (hs : w.slots[j]? = some s) :
    Enters j w (w.admitted s fd now free sched disk) := by
  have hdistinct := hfit.distinct
  rw [hfree, List.nodup_cons] at hdistinct
  have hoff : s.active = false := by
    obtain ⟨x, hx, hoff⟩ := hfit.free j (by rw [hfree]; exact List.mem_cons_self)
    rw [Option.some.inj (hs.symm.trans hx)]
    exact hoff
  have hlog : (w.admitted s fd now free sched disk).log = w.calls ++
      [.accept fd, .epollCtl fd (.add ⟨true, false⟩) (Kernel.epollCtl ⟨sched, .empty⟩ fd
        (.add ⟨true, false⟩)).1] := List.append_assoc ..
  have hdial : ∀ c ∈ [ControlCall.accept fd, .epollCtl fd (.add ⟨true, false⟩)
      (Kernel.epollCtl ⟨sched, .empty⟩ fd (.add ⟨true, false⟩)).1], c.dials = false := by
    intro c hc
    rcases List.mem_cons.1 hc with rfl | hc
    · rfl
    · rw [List.mem_singleton.1 hc]
      rfl
  refine ⟨⟨hfit.cache, fun _ => ⟨rfl, rfl⟩, nofun⟩, rfl, ?_, hdistinct.1, ⟨_, hlog, hdial, ?_⟩,
    fun hpeers => ⟨⟨fun e he => ?_, nofun⟩, nofun⟩⟩
  · rw [hfree]
    exact List.sublist_cons_self j free
  · rw [admitted_ledger fd now sched disk hfit hs hoff]
    have hclient : w.ledger.place (.slot j .client) = none := by
      show ((w.slots[j]?).bind fun s => s.owns .client).map _ = none
      rw [hs, Option.bind_some]
      show (if s.active then s.hc.fd else none).map _ = none
      rw [hoff]
      rfl
    have hbring : PlaceMove j w.ledger _ _ :=
      .bring _ (.accept fd) (.slot j .client) fd ⟨rfl, fun _ => rfl⟩ hclient
    exact hbring.moves.trans (Move.quiet _ (.epollCtl fd (.add ⟨true, false⟩) _) ⟨rfl, nofun⟩).moves
  · refine (hpeers.pool e he).congr ?_
    rw [hlog]
    exact connectedTo_still e.fd hdial

/-- A descriptor that is closed at once leaves nothing behind. -/
theorem afterCalls_passing {opens : Nat → Option FdKind} {cs : List ControlCall} {fd : Nat}
    (hquiet : ∀ c ∈ cs, c.Quiet)
    (hfresh : FreshAfter opens (.accept fd :: cs ++ [.close fd])) :
    afterCalls opens (.accept fd :: cs ++ [.close fd]) = opens := by
  have hcs : ∀ o, afterCalls o cs = o := by
    intro o
    induction cs with
    | nil => rfl
    | cons c cs ih =>
        show afterCalls (afterCall o c) cs = o
        rw [afterCall_quiet (hquiet c List.mem_cons_self)]
        refine ih (fun c' hc' => hquiet c' (List.mem_cons_of_mem _ hc')) ⟨hfresh.1, ?_⟩
        have hrest := hfresh.2.2
        rw [afterCall_quiet (hquiet c List.mem_cons_self)] at hrest
        exact hrest
  rw [afterCalls_append, afterCalls_singleton]
  show Function.update (afterCalls (Function.update opens fd (some .client)) cs) fd none = opens
  rw [hcs, Function.update_idem, ← hfresh.1 fd rfl, Function.update_eq_self]

/-- A connection that has nothing is cleaned up. -/
theorem httpConnCleanup_idle {h : Handler} (hfile : h.hc.fileFd = none)
    (howned : h.hc.fileOwned = true) (hcork : h.hc.corkOn = false) : h.httpConnCleanup = h := by
  have hhc : ({ h.hc with fileFd := none, fileOwned := true } : HttpConn) = h.hc := by
    rw [← hfile, ← howned]
  have hrelease : h.releaseFile = h := by
    unfold Handler.releaseFile
    rw [hfile]
  unfold Handler.httpConnCleanup
  extract_lets h₁ src h₂
  have hsame : h₂ = h := by
    show ({ h.releaseFile with
      hc := { h.releaseFile.hc with fileFd := none, fileOwned := true } } : Handler) = h
    rw [hrelease, hhc]
  rw [hsame, hcork]
  split
  · rfl
  · rfl

/-- The calls for a connection that is closed at once. -/
theorem Sane.passing {cs : List ControlCall} {fd : Nat} (hsane : w.Sane n)
    (hquiet : ∀ c ∈ cs, c.Quiet ∧ c.dials = false)
    (hfresh : FreshAfter (openFds w.calls) (.accept fd :: cs ++ [.close fd]))
    (hcalls : w'.calls = w.calls ++ (.accept fd :: cs ++ [.close fd]))
    (hledger : w'.ledger = w.ledger) (hpool : w'.pool = w.pool)
    (hslots : ∀ s ∈ w'.slots, s ∈ w.slots ∨ s.px.fd = none ∧ s.trail.takes = []) : w'.Sane n := by
  have hdial : ∀ c ∈ ControlCall.accept fd :: cs ++ [.close fd], c.dials = false := by
    intro c hc
    rcases List.mem_append.1 hc with hc | hc
    · rcases List.mem_cons.1 hc with rfl | hc
      · rfl
      · exact (hquiet c hc).2
    · rw [List.mem_singleton.1 hc]
      rfl
  have hstill : ∀ fd', connectedTo fd' w'.calls = connectedTo fd' w.calls := by
    intro fd'
    rw [hcalls]
    exact connectedTo_still fd' hdial
  refine ⟨?_, ⟨fun e he => ?_, fun s hs fd' hfd' => ?_, fun s hs => ?_⟩⟩
  · rw [hcalls, openFds_append, afterCalls_passing (fun c hc => (hquiet c hc).1) hfresh, hledger]
    exact hsane.sound
  · rw [hpool] at he
    exact (hsane.peers.pool e he).congr (hstill _)
  · rcases hslots s hs with hs | ⟨hnone, -⟩
    · exact (hsane.peers.slots s hs fd' hfd').congr (hstill _)
    · rw [hnone] at hfd'
      cases hfd'
  · rcases hslots s hs with hs | ⟨-, hnone⟩
    · exact hsane.peers.takes s hs
    · rw [hnone]
      exact nofun

theorem stale_passes (n : Nat) (w : Worker) (fd : Nat) (T : Nat → Prop) :
    Passes n T w ((w.call (.accept fd)).call (.close fd)) := by
  have hcalls : ((w.call (.accept fd)).call (.close fd)).calls =
      w.calls ++ ([.accept fd] ++ [.close fd]) := List.append_assoc ..
  intro hfit
  refine ⟨⟨hfit.count, hfit.cache, hfit.slots, hfit.distinct, hfit.free⟩, fun _ _ => rfl,
    _, hcalls, fun _ hsane hfresh => ⟨?_, fun k fd' _ hheld hmem => ?_⟩⟩
  · have hquiet : ∀ c ∈ ([] : List ControlCall), c.Quiet ∧ c.dials = false := nofun
    exact hsane.passing hquiet hfresh hcalls rfl rfl fun s hs => Or.inl hs
  · have hopen := held_open hfit hsane hheld
    have hfd : fd' = fd := by simpa using hmem
    rw [hfd, hfresh.1 fd rfl] at hopen
    cases hopen

/-- The slot at the top of the free stack is not active, and no other entry is for it. -/
theorem Fit.top (hfit : w.Fit n) (hfree : w.freeStack = j :: free) (hs : w.slots[j]? = some s) :
    s.active = false ∧ ∀ k ∈ free, k ≠ j := by
  obtain ⟨x, hx, hoff⟩ := hfit.free j (by rw [hfree]; exact List.mem_cons_self)
  have hdistinct := hfit.distinct
  rw [hfree, List.nodup_cons] at hdistinct
  refine ⟨?_, fun k hk he => hdistinct.1 (he ▸ hk)⟩
  rw [Option.some.inj (hs.symm.trans hx)]
  exact hoff

/-- What a connection that epoll refuses leaves: nothing of it needs to be cleaned up. -/
structure Rejected (w : Worker) (s : Slot) (fd : Nat) (t : Turn) : Prop where
  file : t.hc.fileFd = none
  client : t.hc.fd = some fd
  arena : t.arena = 0
  cache : t.cache = w.cache
  upstream : t.px.fd = none
  inEpoll : t.px.inEpoll = s.px.inEpoll
  pool : t.pool = w.pool
  active : t.active = s.active
  conn : t.hc.phase = .read ∧ t.hc.buf = [] ∧ t.hc.headerCap = TINY_HEADER_SIZE
  trail : t.trail = .empty
  free : t.freeStack = w.freeStack
  count : t.nactive = w.nactive
  log : ∃ ok, t.log = w.calls ++ (.accept fd :: [.epollCtl fd (.add ⟨true, false⟩) ok] ++
    [.close fd])

theorem rejected_spec (fd now : Nat) (sched : Schedule) (disk : Disk)
    (hfree : w.freeStack = j :: free) (s : Slot) :
    Rejected w s fd (w.rejected j s fd now free sched disk) := by
  unfold rejected
  extract_lets t₁ t₂ t₃
  have hidle : t₃ = t₂ := by
    show t₂.withHandler t₂.toHandler.httpConnCleanup = t₂
    rw [httpConnCleanup_idle (h := t₂.toHandler) rfl rfl rfl]
    rfl
  rw [hidle]
  refine ⟨rfl, rfl, rfl, rfl, rfl, rfl, rfl, rfl, ⟨rfl, rfl, rfl⟩, rfl, hfree.symm, rfl, ?_⟩
  refine ⟨(Kernel.epollCtl ⟨sched, .empty⟩ fd (.add ⟨true, false⟩)).1, ?_⟩
  show (w.calls ++ [.accept fd]) ++ (([] ++ [_]) ++ [_]) = _
  rw [List.append_assoc]
  rfl

/-- A connection that epoll refuses leaves the descriptors of the worker as they were. -/
theorem Rejected.ledger {fd : Nat} {t : Turn} (ht : Rejected w s fd t) (hfit : w.Fit n)
    (hs : w.slots[j]? = some s) (hoff : s.active = false) :
    (w.store j t).ledger = w.ledger := by
  have hslot := hfit.slots s (List.mem_of_getElem? hs)
  obtain ⟨hfile, hup⟩ := hslot.closed hoff
  have hclient : t.ledger j w.ledger = (w.load s .quiet .quiet).ledger j w.ledger := by
    have howner : ({ w.load s .quiet .quiet with
        hc := { s.hc with fileOwned := t.hc.fileOwned } } : Turn).ledger j w.ledger =
        (w.load s .quiet .quiet).ledger j w.ledger := on_noFile j _ none rfl hfile hfile
    have hset := Turn.ledger_setClient
      { w.load s .quiet .quiet with hc := { s.hc with fileOwned := t.hc.fileOwned } } t j w.ledger
      ht.cache (ht.file.trans hfile.symm) rfl (ht.upstream.trans hup.symm) ht.pool
    rw [hset, ← howner]
    apply put_same
    rw [Turn.ledger_client]
    unfold Turn.clientFd
    rw [ht.active, hoff, show ({ w.load s .quiet .quiet with
      hc := { s.hc with fileOwned := t.hc.fileOwned } } : Turn).active = false from hoff]
    rfl
  rw [store_ledger t hs, hclient, load_ledger hs hslot.calls]

/-- A client that cannot be registered passes through its slot. -/
theorem rejected_passes (n fd now : Nat) (sched : Schedule) (disk : Disk)
    (hfree : w.freeStack = j :: free) (hs : w.slots[j]? = some s) :
    Passes n (· = j) w (w.store j (w.rejected j s fd now free sched disk)) := by
  intro hfit
  obtain ⟨hoff, hmem⟩ := hfit.top hfree hs
  have ht := rejected_spec fd now sched disk hfree s
  generalize w.rejected j s fd now free sched disk = t at ht
  obtain ⟨ok, hlog⟩ := ht.log
  have hfit' : (w.store j t).Fit n := by
    refine store_fit hfit hs ⟨by rw [ht.cache]; exact hfit.cache, fun _ => ⟨ht.file, ht.arena⟩,
      fun _ => ⟨ht.file, ht.upstream⟩⟩ (by rw [ht.free]; exact hfit.distinct) fun k hk => ?_
    by_cases hkj : k = j
    · exact Or.inr ⟨hkj, ht.active.trans hoff⟩
    · rw [ht.free] at hk
      exact Or.inl ⟨hk, hkj⟩
  refine ⟨hfit', fun k hk => store_slots t hk, _, hlog, fun _ hsane hfresh =>
    ⟨?_, fun k fd' _ hheld hclose => ?_⟩⟩
  · refine hsane.passing (fun c hc => ?_) hfresh hlog (ht.ledger hfit hs hoff) ht.pool fun x hx => ?_
    · rw [List.mem_singleton.1 hc]
      exact ⟨⟨rfl, nofun⟩, rfl⟩
    · rcases mem_store hs hx with rfl | ⟨k, -, hk⟩
      · exact Or.inr ⟨ht.upstream, congrArg Trail.takes ht.trail⟩
      · exact Or.inl (List.mem_of_getElem? hk)
  · have hopen := held_open hfit hsane hheld
    have hfd : fd' = fd := by simpa using hclose
    rw [hfd, hfresh.1 fd rfl] at hopen
    cases hopen

theorem tryAcceptOne_passes {site : Site} {fuel acceptTime now : Nat} {fd : Option Nat}
    {sched : Schedule} {disk : Disk} (n : Nat)
    (h : w.tryAcceptOne site fuel fd acceptTime now sched disk = some w') :
    Passes n (fun k => w.freeStack.head? = some k) w w' := by
  rcases tryAcceptOne_cases h with rfl | ⟨fd, rfl⟩ | ⟨fd, idx, free, s, hfree, hs, hrest⟩
  · exact .refl n _ _
  · exact stale_passes n w fd _
  have hhead : ∀ k, k = idx → w.freeStack.head? = some k := by
    rintro k rfl
    rw [hfree]
    rfl
  rcases hrest with rfl | ⟨-, r, t, hread, happly, rfl⟩
  · exact (rejected_passes n fd now sched disk hfree hs).mono hhead
  · intro hfit
    have henter := admitted_enters fd now sched disk hfit hfree hs
    obtain ⟨hgoes, hactive⟩ := Turn.httpConnOnRead_goes (j := idx) now henter.fit henter.active hread
    have hgoes' := hgoes.trans (Turn.applyIo_goes (hgoes henter.fit).1 hactive happly)
    exact (store_passes n hs henter hgoes').mono hhead hfit

end Accept

/-! ## Runs -/

section Runs

variable {site : Site} {fuel n : Nat} {w w' : Worker} {a : Action}

/-- The slots that a step handles. -/
def touches (w : Worker) : Action → Nat → Prop
  | .accept _ _ _ _ _, k => w.freeStack.head? = some k
  | .event ev _ _ _, k => k = ev.idx
  | .sweep now, k => Closes (fun s => decide (s.hc.deadlineMs ≤ now)) w k
  | .exit, k => Closes (fun _ => true) w k

/-- The invariant of a worker. After its end no step reads its slots. -/
structure Steady (n : Nat) (w : Worker) : Prop where
  count : w.slots.length = n
  fit : w.exited = false → w.Fit n
  busy : ∀ i r, w.cache.retired i = some r → 0 < r.uses
  sane : n ≤ UINT16_MAX → FreshCalls w.calls → w.Sane n

/-- A new worker's slots fit. -/
theorem start_fit (n : Nat) : (Worker.start n).Fit n := by
  refine ⟨List.length_replicate, .fresh, fun s hs => ?_, List.nodup_range, fun j hj => ?_⟩
  · rw [List.eq_of_mem_replicate hs]
    exact .unused
  · refine ⟨.unused, ?_, rfl⟩
    exact List.getElem?_replicate_of_lt (List.mem_range.1 hj)

/-- A new worker's descriptors are in step. -/
theorem start_steady (n : Nat) : Steady n (Worker.start n) := by
  have hslot : ∀ (k : Nat) (f : Slot → Option Nat), f .unused = none →
      ((List.replicate n Slot.unused)[k]?).bind f = none := by
    intro k f hf
    rw [List.getElem?_replicate]
    split
    · exact hf
    · rfl
  have hplace : ∀ p, (Worker.start n).ledger.place p = none := by
    intro p
    cases p with
    | cached | retired | idle => rfl
    | slot k part =>
        show (((List.replicate n Slot.unused)[k]?).bind fun s => s.owns part).map _ = none
        rw [hslot k _ (by cases part <;> rfl)]
        rfl
  refine ⟨List.length_replicate, fun _ => start_fit n, nofun, fun _ _ => ⟨⟨⟨?_, ?_, ?_, fun k hk => ?_⟩, fun k hk => ?_⟩, ?_⟩⟩
  · intro p q k m m' hp
    rw [hplace p] at hp
    cases hp
  · intro p k m hp
    rw [hplace p] at hp
    cases hp
  · intro p k m hp
    rw [hplace p] at hp
    cases hp
  · refine absurd ?_ hk
    apply List.countP_eq_zero.2
    intro j _ hheld
    have hnone := hslot j Slot.holds rfl
    rw [show ((List.replicate n Slot.unused)[j]?).bind Slot.holds = some k from
      of_decide_eq_true hheld] at hnone
    cases hnone
  · cases hk
  · refine ⟨nofun, fun s hs fd hfd => ?_, fun s hs => ?_⟩
    · rw [List.eq_of_mem_replicate hs] at hfd
      cases hfd
    · rw [List.eq_of_mem_replicate hs]
      exact nofun

/-- A worker that leaves its loop closes what it has. -/
theorem exit_sane (hfit : w.Fit n) (hsane : FreshCalls w.calls → w.Sane n) (hn : n ≤ UINT16_MAX)
    (hfresh : FreshCalls w.exit.calls) : w.exit.Sane n := by
  let w₁ := (List.range w.slots.length).foldl (closeSlot fun _ => true) w
  obtain ⟨hfit₁, -, cs, hcalls, hpass⟩ := closeSlots_passes n (fun _ => true) _ w hfit
  have hclear : ∃ cs', w.exit.calls = w₁.calls ++ cs' := ⟨_, List.append_assoc ..⟩
  obtain ⟨cs', hexit⟩ := hclear
  have hfresh₁ : FreshCalls w₁.calls := by
    rw [hexit] at hfresh
    exact hfresh.append.1
  have hsane₁ : w₁.Sane n := by
    rw [show w₁.calls = w.calls ++ cs from hcalls] at hfresh₁
    exact (hpass hn (hsane hfresh₁.append.1) hfresh₁.append.2).1
  have hoff : ∀ s ∈ w₁.slots, s.hc.fileFd = none ∧ s.px.fd = none := by
    intro s hs
    refine (hfit₁.slots s hs).closed (closeAll_inactive _ (fun k s hk hmem => ?_) s hs)
    exact absurd (List.mem_range.2 (List.getElem?_eq_some_iff.1 hk).1) hmem
  have hidle : w₁.Idle := by
    intro s hs
    unfold Slot.holds
    rw [(hoff s hs).1, ite_self]
  refine ⟨?_, nofun, fun s hs fd hfd => ?_, hsane₁.peers.takes⟩
  · obtain ⟨cs', hcalls', hsheds⟩ := clear_sheds hidle hsane₁.sound
    have hsound := hsheds.sound hsane₁.sound
    rw [← openFds_append, ← hcalls'] at hsound
    exact hsound
  · rw [(hoff s hs).2] at hfd
    cases hfd

/-- The step lemma. -/
theorem step_steady (hs : Steady n w) (h : w.step site fuel a = some w') : Steady n w' ∧
    (n ≤ UINT16_MAX → FreshCalls w'.calls → ∀ cs, w'.calls = w.calls ++ cs → ∀ k fd,
      ¬ w.touches a k → w.ledger.held k = some fd → ControlCall.close fd ∉ cs) := by
  unfold Worker.step at h
  cases hon : w.exited with
  | true =>
      rw [hon] at h
      cases h
  | false =>
      rw [hon, if_neg Bool.false_ne_true] at h
      have hfit := hs.fit hon
      have hstep : ∀ {T : Nat → Prop}, Passes n T w w' → Steady n w' ∧
          (n ≤ UINT16_MAX → FreshCalls w'.calls → ∀ cs, w'.calls = w.calls ++ cs → ∀ k fd,
            ¬ T k → w.ledger.held k = some fd → ControlCall.close fd ∉ cs) := by
        intro T hpass
        obtain ⟨hfit', -, cs, hcalls, hsane⟩ := hpass hfit
        have hboth : n ≤ UINT16_MAX → FreshCalls w'.calls → _ := fun hn hfresh => by
          rw [hcalls] at hfresh
          exact hsane hn (hs.sane hn hfresh.append.1) hfresh.append.2
        refine ⟨⟨hfit'.count, fun _ => hfit', hfit'.cache.busy, fun hn hfresh => (hboth hn hfresh).1⟩, ?_⟩
        intro hn hfresh cs' hcalls' k fd hk hheld
        rw [← List.append_cancel_left (hcalls.symm.trans hcalls')]
        exact (hboth hn hfresh).2 k fd hk hheld
      cases a with
      | accept fd acceptTime now sched disk => exact hstep (tryAcceptOne_passes n h)
      | event ev now sched disk => exact hstep (onSlot_passes n h)
      | sweep now =>
          rw [← Option.some.inj h]
          rw [← Option.some.inj h] at hstep
          exact hstep (sweepDeadlines_passes n w now)
      | exit =>
          rw [← Option.some.inj h]
          have hcount : w.exit.slots.length = n :=
            (List.foldlRecOn (motive := fun x : Worker => x.slots.length = n) _ _ hs.count
              fun x hx i _ => (closeSlot_length _ x i).trans hx)
          have hnone := staticCacheClear_retired (closeSlots_passes n (fun _ => true)
            (List.range w.slots.length) w hfit).1.cache
          refine ⟨⟨hcount, nofun, fun i r hr => ?_, fun hn hfresh =>
            exit_sane hfit (hs.sane hn) hn hfresh⟩, ?_⟩
          · rw [show w.exit.cache.retired i = none from hnone i] at hr
            cases hr
          intro hn hfresh cs hcalls k fd hk hheld
          -- A slot that is not active holds nothing.
          obtain ⟨s, hslot, hfd⟩ := Option.bind_eq_some_iff.1 hheld
          have hoff : s.active = false := by
            by_contra hactive
            exact hk ⟨s, hslot, by simpa using hactive, rfl⟩
          have hnone := ((hfit.slots s (List.mem_of_getElem? hslot)).closed hoff).1
          unfold Slot.holds at hfd
          rw [hnone, ite_self] at hfd
          cases hfd

/-- The run lemma. -/
theorem reachable_steady (site : Site) (fuel n : Nat) (as : List Action) :
    ∀ w ∈ runStates (Worker.step site fuel) (Worker.start n) as, Steady n w :=
  have hall : AllSteps (Worker.step site fuel) (fun _ _ => True) (Worker.start n) as :=
    .of_forall (fun _ _ => trivial) as _
  AllSteps.invariant (fun _ _ _ hs _ h => (step_steady hs h).1) (start_steady n) hall

end Runs

end Worker

end TinyServer.Serve
