import Mathlib.Data.List.Nodup
import Mathlib.Data.Nat.ModEq
import TinyServer.Queue.Ring

/-!
# What the queue delivers

A consumer advances `head_id` before it copies the payload and clears `ready`.
While it is stalled there the slot still says `ready`, so once the others have
gone round the ring a consumer can claim the slot a second time. `delivered_iff`
is the exact condition: the queue delivers every accepted connection at most
once, in order and with its payload, along exactly those runs in which no
compare-exchange succeeds on a slot that is empty or still held.
-/

set_option autoImplicit false

namespace TinyServer.Queue

open TinyServer.Lib

variable {cap : Capacity} {ι : Type}

/-! ## Slots -/

theorem slotOf_val (cap : Capacity) (id : Nat) : (slotOf cap id).val = id % cap.size :=
  Nat.and_two_pow_sub_one_eq_mod id cap.log2

/-- Two indices have one slot if they differ by a multiple of the size. -/
theorem slotOf_eq_iff {id id' : Nat} :
    slotOf cap id = slotOf cap id' ↔ id % cap.size = id' % cap.size := by
  rw [Fin.ext_iff, slotOf_val, slotOf_val]

/-- The ring size divides 2^64, so a wrapped counter names the same slot. -/
theorem slotOf_wrap64 (id : Nat) : slotOf cap (wrap64 id) = slotOf cap id := by
  rw [slotOf_eq_iff]
  refine Nat.mod_mod_of_dvd id (pow_dvd_pow 2 ?_)
  have := cap.le
  omega

/-- Positions less than a ring apart have different slots. -/
theorem eq_of_slotOf_eq {p p' : Nat} (h : slotOf cap p = slotOf cap p') (h1 : p < p' + cap.size)
    (h2 : p' < p + cap.size) : p = p' := by
  rw [slotOf_eq_iff] at h
  rcases Nat.le_total p p' with hle | hle
  · have hd : cap.size ∣ p' - p := (Nat.modEq_iff_dvd' hle).1 h
    have := Nat.eq_zero_of_dvd_of_lt hd (by omega)
    omega
  · have hd : cap.size ∣ p - p' := (Nat.modEq_iff_dvd' hle).1 h.symm
    have := Nat.eq_zero_of_dvd_of_lt hd (by omega)
    omega

namespace ConnectionQueue

@[simp] theorem setSlot_headId (q : ConnectionQueue cap) (id : Nat) (c : Connection) :
    (q.setSlot id c).headId = q.headId := rfl

@[simp] theorem setSlot_tailId (q : ConnectionQueue cap) (id : Nat) (c : Connection) :
    (q.setSlot id c).tailId = q.tailId := rfl

theorem setSlot_data_self (q : ConnectionQueue cap) (id : Nat) (c : Connection) :
    (q.setSlot id c).data (slotOf cap id) = c := Function.update_self _ _ _

theorem setSlot_data_of_ne (q : ConnectionQueue cap) {id : Nat} {x : Fin cap.size}
    (h : x ≠ slotOf cap id) (c : Connection) : (q.setSlot id c).data x = q.data x :=
  Function.update_of_ne h _ _

end ConnectionQueue

/-! ## The property and the condition -/

/-- Every accepted connection is returned at most once and with its payload,
positions are claimed in the order of acceptance, and `head_id` does not pass
`tail_id`. -/
structure Delivered (s : State cap ι) : Prop where
  order : s.history.claimed = (List.range s.history.claimed.length).map wrap64
  head : s.queue.headId = wrap64 s.history.claimed.length
  tail : s.queue.tailId = wrap64 s.history.accepted.length
  no_pass : s.history.claimed.length ≤ s.history.accepted.length
  once : (s.history.returned.map Prod.fst).Nodup
  payload : ∀ r ∈ s.history.returned, r.1 < s.history.claimed.length ∧
    (s.history.accepted[r.1]?).map Connection.payload = some r.2.payload

/-- A compare-exchange that is about to succeed finds the slot ready and no
other consumer between its own compare-exchange on that slot and the store that
clears `ready`. -/
def ClaimsFresh (s : State cap ι) : Action ι → Prop
  | .consume i =>
      (s.consumers i).pc = .sawReady s.queue.headId →
        (s.queue.slot s.queue.headId).ready = true ∧
          ∀ j pos, (s.consumers j).pc.held = some pos →
            slotOf cap pos ≠ slotOf cap s.queue.headId
  | _ => True

/-! ## The invariant -/

/-- Position `p` is in the ring: its slot is ready and holds the payload of the
accepted connection number `p`, and the producer is at most a round ahead. -/
structure InRing (q : ConnectionQueue cap) (accepted : List Connection) (p : Nat) : Prop where
  lt : p < accepted.length
  near : accepted.length ≤ p + cap.size
  ready : (q.data (slotOf cap p)).ready = true
  payload : (accepted[p]?).map Connection.payload = some (q.data (slotOf cap p)).payload

/-- The invariant: what was delivered, and which slot of the ring belongs to whom. -/
structure Inv (s : State cap ι) : Prop extends Delivered s where
  pending : ∀ p, s.history.claimed.length ≤ p → p < s.history.accepted.length →
    InRing s.queue s.history.accepted p
  held_pos : ∀ i pos, (s.consumers i).pc.held = some pos → pos = wrap64 (s.history.ticket i)
  held_lt : ∀ i pos, (s.consumers i).pc.held = some pos →
    s.history.ticket i < s.history.claimed.length
  held_inRing : ∀ i pos, (s.consumers i).pc.held = some pos →
    InRing s.queue s.history.accepted (s.history.ticket i)
  held_unreturned : ∀ i pos, (s.consumers i).pc.held = some pos →
    s.history.ticket i ∉ s.history.returned.map Prod.fst
  held_apart : ∀ i j pos pos', i ≠ j → (s.consumers i).pc.held = some pos →
    (s.consumers j).pc.held = some pos' → s.history.ticket i ≠ s.history.ticket j
  /-- A ready slot belongs to a connection not claimed or not released yet. -/
  cover : ∀ x, (s.queue.data x).ready = true → ∃ p, slotOf cap p = x ∧
    p < s.history.accepted.length ∧ (s.history.claimed.length ≤ p ∨
      ∃ i pos, (s.consumers i).pc.held = some pos ∧ s.history.ticket i = p)
  out : ∀ i pos, (s.consumers i).pc = .copied pos →
    (s.history.accepted[s.history.ticket i]?).map Connection.payload =
      some (s.consumers i).out.payload
  checked : ∀ c, s.producer = .checked c →
    (s.queue.data (slotOf cap s.history.accepted.length)).ready = false
  copied : ∀ c, s.producer = .copied c →
    (s.queue.data (slotOf cap s.history.accepted.length)).ready = false ∧
      (s.queue.data (slotOf cap s.history.accepted.length)).payload = c.payload

/-- An empty queue with no thread inside. -/
theorem Init.inv {s : State cap ι} (h : Init s) : Inv s := by
  have hheld : ∀ i pos, (s.consumers i).pc.held ≠ some pos := by
    intro i pos hh
    rw [h.consumers i] at hh
    cases hh
  constructor
  case toDelivered =>
    refine ⟨?_, ?_, ?_, ?_, ?_, ?_⟩
    · rw [h.claimed]
      rfl
    · rw [h.claimed, h.head]
      rfl
    · rw [h.accepted, h.tail]
      rfl
    · rw [h.claimed]
      exact Nat.zero_le _
    · rw [h.returned]
      exact List.nodup_nil
    · rw [h.returned]
      exact fun r hr => absurd hr List.not_mem_nil
  case pending =>
    intro p _ hp
    rw [h.accepted] at hp
    exact absurd hp (Nat.not_lt_zero p)
  case held_pos => exact fun i pos hh => absurd hh (hheld i pos)
  case held_lt => exact fun i pos hh => absurd hh (hheld i pos)
  case held_inRing => exact fun i pos hh => absurd hh (hheld i pos)
  case held_unreturned => exact fun i pos hh => absurd hh (hheld i pos)
  case held_apart => exact fun i _ pos _ _ hh => absurd hh (hheld i pos)
  case cover =>
    intro x hx
    rw [h.empty x] at hx
    cases hx
  case out =>
    intro i pos hpc
    rw [h.consumers i] at hpc
    cases hpc
  case checked =>
    intro c hc
    rw [h.producer] at hc
    cases hc
  case copied =>
    intro c hc
    rw [h.producer] at hc
    cases hc

/-! ## Producer steps -/

/-- Nothing in the ring uses a slot that is not ready. -/
theorem InRing.slot_ne {q : ConnectionQueue cap} {accepted : List Connection} {p n : Nat}
    (h : InRing q accepted p) (hn : (q.data (slotOf cap n)).ready = false) :
    slotOf cap p ≠ slotOf cap n := by
  intro e
  have hr := h.ready
  rw [e, hn] at hr
  cases hr

/-- The producer looks at its slot. -/
theorem Inv.enqueueLoad {s : State cap ι} (h : Inv s) (c : Connection) : Inv (enqueueLoad s c) := by
  have hslot : s.queue.slot s.queue.tailId =
      s.queue.data (slotOf cap s.history.accepted.length) := by
    rw [ConnectionQueue.slot, h.tail, slotOf_wrap64]
  unfold Queue.enqueueLoad
  split
  · exact ⟨⟨h.order, h.head, h.tail, h.no_pass, h.once, h.payload⟩, h.pending, h.held_pos,
      h.held_lt, h.held_inRing, h.held_unreturned, h.held_apart, h.cover, h.out, h.checked,
      h.copied⟩
  · rename_i hready
    rw [hslot] at hready
    refine ⟨⟨h.order, h.head, h.tail, h.no_pass, h.once, h.payload⟩, h.pending, h.held_pos,
      h.held_lt, h.held_inRing, h.held_unreturned, h.held_apart, h.cover, h.out, ?_, nofun⟩
    intro _ _
    simpa using hready

/-- Writing to a slot that is not ready leaves the ring as it was. -/
theorem InRing.setSlot {q : ConnectionQueue cap} {accepted : List Connection} {p n : Nat}
    (h : InRing q accepted p) (hne : slotOf cap p ≠ slotOf cap n) (c : Connection) :
    InRing (q.setSlot n c) accepted p := by
  refine ⟨h.lt, h.near, ?_, ?_⟩
  · rw [q.setSlot_data_of_ne hne]
    exact h.ready
  · rw [q.setSlot_data_of_ne hne]
    exact h.payload

/-- The payload copy of the producer. -/
theorem Inv.producerCopy {s : State cap ι} (h : Inv s) {c : Connection}
    (hpc : s.producer = .checked c) :
    Inv { s with
      queue := s.queue.setSlot s.queue.tailId
        (connectionCopyPayload (s.queue.slot s.queue.tailId) c)
      producer := .copied c } := by
  have hfree := h.checked c hpc
  have htail : slotOf cap s.queue.tailId = slotOf cap s.history.accepted.length := by
    rw [h.tail, slotOf_wrap64]
  have hslot : (s.queue.slot s.queue.tailId).ready = false := by
    rw [ConnectionQueue.slot, htail]
    exact hfree
  rw [← htail] at hfree
  constructor
  case toDelivered => exact ⟨h.order, h.head, h.tail, h.no_pass, h.once, h.payload⟩
  case pending => exact fun p h1 h2 => (h.pending p h1 h2).setSlot ((h.pending p h1 h2).slot_ne hfree) _
  case held_pos => exact h.held_pos
  case held_lt => exact h.held_lt
  case held_inRing =>
    exact fun i pos hh => (h.held_inRing i pos hh).setSlot ((h.held_inRing i pos hh).slot_ne hfree) _
  case held_unreturned => exact h.held_unreturned
  case held_apart => exact h.held_apart
  case cover =>
    intro x hx
    by_cases he : x = slotOf cap s.queue.tailId
    · rw [he, ConnectionQueue.setSlot_data_self, connectionCopyPayload_ready, hslot] at hx
      cases hx
    · rw [ConnectionQueue.setSlot_data_of_ne _ he] at hx
      exact h.cover x hx
  case out => exact h.out
  case checked => exact nofun
  case copied =>
    rintro _ ⟨rfl⟩
    show ((s.queue.setSlot _ _).data (slotOf cap s.history.accepted.length)).ready = false ∧ _
    rw [← htail, ConnectionQueue.setSlot_data_self]
    exact ⟨hslot, rfl⟩

/-- The next index wraps as the count does. -/
theorem wrap64_succ (n : Nat) : wrap64 (wrap64 n + 1) = wrap64 (n + 1) := by
  unfold wrap64
  omega

/-- The store of `ready` and the increment of `tail_id`. -/
theorem Inv.producerStore {s : State cap ι} (h : Inv s) {c : Connection}
    (hpc : s.producer = .copied c) :
    Inv { s with
      queue := { s.queue.setSlot s.queue.tailId { s.queue.slot s.queue.tailId with ready := true } with
        tailId := wrap64 (s.queue.tailId + 1) }
      producer := .idle
      history := { s.history with accepted := s.history.accepted ++ [c] } } := by
  obtain ⟨hfree, hpay⟩ := h.copied c hpc
  have htail : slotOf cap s.queue.tailId = slotOf cap s.history.accepted.length := by
    rw [h.tail, slotOf_wrap64]
  have hslot : s.queue.slot s.queue.tailId =
      s.queue.data (slotOf cap s.history.accepted.length) := by
    rw [ConnectionQueue.slot, htail]
  have hget : ∀ p, p < s.history.accepted.length →
      (s.history.accepted ++ [c])[p]? = s.history.accepted[p]? :=
    fun p hp => List.getElem?_append_left hp
  -- A connection that was in the ring stays there: the new slot is another one.
  have hold : ∀ p, InRing s.queue s.history.accepted p →
      InRing { s.queue.setSlot s.queue.tailId { s.queue.slot s.queue.tailId with ready := true } with
        tailId := wrap64 (s.queue.tailId + 1) } (s.history.accepted ++ [c]) p := by
    intro p hp
    have hne := hp.slot_ne hfree
    have hne' : slotOf cap p ≠ slotOf cap s.queue.tailId := htail ▸ hne
    refine ⟨?_, ?_, ?_, ?_⟩
    · rw [List.length_append]
      exact Nat.lt_add_right _ hp.lt
    · -- A full round ahead would put the producer on the slot of `p`.
      have hnear := hp.near
      rw [List.length_append, List.length_singleton]
      by_contra hn
      have he : s.history.accepted.length = p + cap.size := by omega
      apply hne
      rw [slotOf_eq_iff, he, Nat.add_mod_right]
    · show ((s.queue.setSlot _ _).data (slotOf cap p)).ready = true
      rw [ConnectionQueue.setSlot_data_of_ne _ hne']
      exact hp.ready
    · show _ = some ((s.queue.setSlot _ _).data (slotOf cap p)).payload
      rw [ConnectionQueue.setSlot_data_of_ne _ hne', hget p hp.lt]
      exact hp.payload
  constructor
  case toDelivered =>
    refine ⟨h.order, h.head, ?_, ?_, h.once, ?_⟩
    · show wrap64 (s.queue.tailId + 1) = wrap64 (s.history.accepted ++ [c]).length
      rw [h.tail, wrap64_succ, List.length_append, List.length_singleton]
    · show _ ≤ (s.history.accepted ++ [c]).length
      rw [List.length_append]
      exact Nat.le_add_right_of_le h.no_pass
    · intro r hr
      obtain ⟨hlt, hp⟩ := h.payload r hr
      refine ⟨hlt, ?_⟩
      show ((s.history.accepted ++ [c])[r.1]?).map _ = _
      rw [hget _ (hlt.trans_le h.no_pass)]
      exact hp
  case pending =>
    intro p h1 h2
    rw [List.length_append, List.length_singleton] at h2
    -- An old position, or the one that is new.
    by_cases hlt : p < s.history.accepted.length
    · exact hold p (h.pending p h1 hlt)
    · have hp : p = s.history.accepted.length := by omega
      have hdata : (s.queue.setSlot s.queue.tailId
          { s.queue.slot s.queue.tailId with ready := true }).data (slotOf cap p) =
            { s.queue.data (slotOf cap p) with ready := true } := by
        rw [hp, ← htail, ConnectionQueue.setSlot_data_self, hslot, htail]
      refine ⟨?_, ?_, ?_, ?_⟩
      · rw [List.length_append, List.length_singleton]
        exact h2
      · have := cap.size_pos
        rw [List.length_append, List.length_singleton]
        omega
      · show ((s.queue.setSlot _ _).data (slotOf cap p)).ready = true
        rw [hdata]
      · show _ = some ((s.queue.setSlot _ _).data (slotOf cap p)).payload
        rw [hdata, hp, List.getElem?_append_right le_rfl, Nat.sub_self]
        exact congrArg some hpay.symm
  case held_pos => exact h.held_pos
  case held_lt => exact h.held_lt
  case held_inRing => exact fun i pos hh => hold _ (h.held_inRing i pos hh)
  case held_unreturned => exact h.held_unreturned
  case held_apart => exact h.held_apart
  case cover =>
    intro x hx
    -- The slot at the tail is ready for the new position; another one was ready before.
    by_cases he : x = slotOf cap s.queue.tailId
    · refine ⟨s.history.accepted.length, by rw [he, htail], ?_, Or.inl h.no_pass⟩
      simp
    · have hx' : (s.queue.data x).ready = true := by
        rw [← ConnectionQueue.setSlot_data_of_ne s.queue he]
        exact hx
      obtain ⟨p, hpx, hp, hl⟩ := h.cover x hx'
      refine ⟨p, hpx, ?_, hl⟩
      rw [List.length_append]
      exact Nat.lt_add_right _ hp
  case out =>
    intro i pos hc
    show ((s.history.accepted ++ [c])[s.history.ticket i]?).map _ = _
    have hheld : (s.consumers i).pc.held = some pos := by
      have hc' : (s.consumers i).pc = .copied pos := hc
      rw [hc']
      rfl
    rw [hget _ (h.held_inRing i pos hheld).lt]
    exact h.out i pos hc
  case checked => exact nofun
  case copied => exact nofun

/-! ## Consumer steps -/

section Consumers

variable [DecidableEq ι]

theorem setConsumer_self (s : State cap ι) (i : ι) (c : Consumer) :
    (s.setConsumer i c).consumers i = c := Function.update_self _ _ _

theorem setConsumer_of_ne (s : State cap ι) {i j : ι} (h : j ≠ i) (c : Consumer) :
    (s.setConsumer i c).consumers j = s.consumers j := Function.update_of_ne h _ _

/-- A step that moves one consumer and keeps what it holds. -/
theorem Inv.setConsumer {s : State cap ι} (h : Inv s) {i : ι} {c : Consumer}
    (hheld : c.pc.held = (s.consumers i).pc.held)
    (hout : ∀ pos, c.pc = .copied pos →
      (s.history.accepted[s.history.ticket i]?).map Connection.payload = some c.out.payload) :
    Inv (s.setConsumer i c) := by
  have hsame : ∀ j, ((s.setConsumer i c).consumers j).pc.held = (s.consumers j).pc.held := by
    intro j
    by_cases hj : j = i
    · rw [hj, setConsumer_self, hheld]
    · rw [setConsumer_of_ne s hj]
  constructor
  case toDelivered => exact ⟨h.order, h.head, h.tail, h.no_pass, h.once, h.payload⟩
  case pending => exact h.pending
  case held_pos => exact fun j pos hh => h.held_pos j pos (hsame j ▸ hh)
  case held_lt => exact fun j pos hh => h.held_lt j pos (hsame j ▸ hh)
  case held_inRing => exact fun j pos hh => h.held_inRing j pos (hsame j ▸ hh)
  case held_unreturned => exact fun j pos hh => h.held_unreturned j pos (hsame j ▸ hh)
  case held_apart =>
    exact fun j k pos pos' hne hj hk => h.held_apart j k pos pos' hne (hsame j ▸ hj) (hsame k ▸ hk)
  case cover =>
    intro x hx
    obtain ⟨p, hpx, hp, hl | ⟨j, pos, hj, ht⟩⟩ := h.cover x hx
    · exact ⟨p, hpx, hp, Or.inl hl⟩
    · exact ⟨p, hpx, hp, Or.inr ⟨j, pos, (hsame j).trans hj, ht⟩⟩
  case out =>
    intro j pos hpc
    by_cases hj : j = i
    · rw [hj, setConsumer_self] at hpc ⊢
      exact hout pos hpc
    · rw [setConsumer_of_ne s hj] at hpc ⊢
      exact h.out j pos hpc
  case checked => exact h.checked
  case copied => exact h.copied

omit [DecidableEq ι] in
/-- A fresh claim is a claim of an accepted connection. -/
theorem Inv.fresh {s : State cap ι} (h : Inv s) {i : ι}
    (hpc : (s.consumers i).pc = .sawReady s.queue.headId) :
    ClaimsFresh s (.consume i) ↔ s.history.claimed.length < s.history.accepted.length := by
  have hslot : slotOf cap s.queue.headId = slotOf cap s.history.claimed.length := by
    rw [h.head, slotOf_wrap64]
  have hheld : ∀ {j pos}, (s.consumers j).pc.held = some pos →
      slotOf cap pos = slotOf cap (s.history.ticket j) := by
    intro j pos hj
    rw [h.held_pos j pos hj, slotOf_wrap64]
  constructor
  · intro hf
    obtain ⟨hready, hfree⟩ := hf hpc
    obtain ⟨p, hpx, hp, hl | ⟨j, pos, hj, rfl⟩⟩ := h.cover _ hready
    · exact lt_of_le_of_lt hl hp
    · exact absurd ((hheld hj).trans hpx) (hfree j pos hj)
  · intro hlt _
    have hring := h.pending _ le_rfl hlt
    refine ⟨?_, ?_⟩
    · rw [ConnectionQueue.slot, hslot]
      exact hring.ready
    · intro j pos hj e
      rw [hheld hj, hslot] at e
      have hjlt := h.held_lt j pos hj
      have hnear := (h.held_inRing j pos hj).near
      have := eq_of_slotOf_eq e (by omega) (by omega)
      omega

/-- A compare-exchange that succeeds on a fresh slot. -/
theorem Inv.claim {s : State cap ι} (h : Inv s) {i : ι}
    (hpc : (s.consumers i).pc = .sawReady s.queue.headId)
    (hlt : s.history.claimed.length < s.history.accepted.length) :
    Inv (claimStep s i s.queue.headId) := by
  -- The head is in the ring, since it is below the tail.
  have hring := h.pending _ le_rfl hlt
  have hnone : (s.consumers i).pc.held = none := by
    rw [hpc]
    rfl
  unfold claimStep
  simp only [if_true]
  set s' : State cap ι := { s.setConsumer i { s.consumers i with pc := .claimed s.queue.headId } with
    queue := { s.queue with headId := wrap64 (s.queue.headId + 1) }
    history := { s.history with
      claimed := s.history.claimed ++ [s.queue.headId]
      ticket := Function.update s.history.ticket i s.history.claimed.length } } with hs'
  have hlen : s'.history.claimed.length = s.history.claimed.length + 1 := by
    simp [hs']
  have hti : s'.history.ticket i = s.history.claimed.length := Function.update_self _ _ _
  have htj : ∀ {j}, j ≠ i → s'.history.ticket j = s.history.ticket j :=
    fun hj => Function.update_of_ne hj _ _
  have hci : s'.consumers i = { s.consumers i with pc := .claimed s.queue.headId } :=
    setConsumer_self s i _
  have hcj : ∀ {j}, j ≠ i → s'.consumers j = s.consumers j := fun hj => setConsumer_of_ne s hj _
  -- Whoever holds a slot now is `i`, with the new ticket, or held it before.
  have hold : ∀ {j pos}, (s'.consumers j).pc.held = some pos →
      (j = i ∧ pos = s.queue.headId) ∨ (j ≠ i ∧ (s.consumers j).pc.held = some pos) := by
    intro j pos hj
    by_cases hji : j = i
    · rw [hji, hci] at hj
      exact Or.inl ⟨hji, (Option.some.inj hj).symm⟩
    · rw [hcj hji] at hj
      exact Or.inr ⟨hji, hj⟩
  constructor
  case toDelivered =>
    refine ⟨?_, ?_, h.tail, ?_, h.once, ?_⟩
    · rw [hlen, List.range_succ, List.map_append, ← h.order, List.map_singleton, ← h.head]
    · rw [hlen]
      show wrap64 (s.queue.headId + 1) = _
      rw [h.head, wrap64_succ]
    · rw [hlen]
      exact hlt
    · intro r hr
      obtain ⟨hlt', hp⟩ := h.payload r hr
      exact ⟨by rw [hlen]; omega, hp⟩
  case pending =>
    intro p h1 h2
    rw [hlen] at h1
    have := h.pending p (by omega) h2
    exact ⟨this.lt, this.near, this.ready, this.payload⟩
  case held_pos =>
    intro j pos hj
    rcases hold hj with ⟨rfl, rfl⟩ | ⟨hji, hj'⟩
    · rw [hti]
      exact h.head
    · rw [htj hji]
      exact h.held_pos j pos hj'
  case held_lt =>
    intro j pos hj
    rw [hlen]
    rcases hold hj with ⟨rfl, rfl⟩ | ⟨hji, hj'⟩
    · rw [hti]
      exact Nat.lt_succ_self _
    · rw [htj hji]
      exact Nat.lt_succ_of_lt (h.held_lt j pos hj')
  case held_inRing =>
    intro j pos hj
    rcases hold hj with ⟨rfl, rfl⟩ | ⟨hji, hj'⟩
    · rw [hti]
      exact ⟨hring.lt, hring.near, hring.ready, hring.payload⟩
    · rw [htj hji]
      have := h.held_inRing j pos hj'
      exact ⟨this.lt, this.near, this.ready, this.payload⟩
  case held_unreturned =>
    intro j pos hj hm
    rcases hold hj with ⟨rfl, rfl⟩ | ⟨hji, hj'⟩
    · rw [hti] at hm
      obtain ⟨r, hr, he⟩ := List.mem_map.1 hm
      have := (h.payload r hr).1
      omega
    · rw [htj hji] at hm
      exact h.held_unreturned j pos hj' hm
  case held_apart =>
    intro j k pos pos' hne hj hk
    -- Tickets are positions that were claimed, and the new one was not.
    rcases hold hj with ⟨rfl, rfl⟩ | ⟨hji, hj'⟩
    · have hk' := (hold hk).resolve_left fun e => hne e.1.symm
      have := h.held_lt k pos' hk'.2
      rw [hti, htj hk'.1]
      omega
    · rcases hold hk with ⟨rfl, rfl⟩ | ⟨hki, hk'⟩
      · have := h.held_lt j pos hj'
        rw [hti, htj hji]
        omega
      · rw [htj hji, htj hki]
        exact h.held_apart j k pos pos' hne hj' hk'
  case cover =>
    intro x hx
    obtain ⟨p, hpx, hp, hl | ⟨j, pos, hj, ht⟩⟩ := h.cover x hx
    -- The new ticket stands for the position at the old head.
    · by_cases he : p = s.history.claimed.length
      · refine ⟨p, hpx, hp, Or.inr ⟨i, s.queue.headId, ?_, by rw [hti, he]⟩⟩
        rw [hci]
        rfl
      · refine ⟨p, hpx, hp, Or.inl ?_⟩
        rw [hlen]
        omega
    · have hji : j ≠ i := by
        rintro rfl
        rw [hnone] at hj
        cases hj
      refine ⟨p, hpx, hp, Or.inr ⟨j, pos, ?_, by rw [htj hji, ht]⟩⟩
      rw [hcj hji]
      exact hj
  case out =>
    intro j pos hc
    have hji : j ≠ i := by
      rintro rfl
      rw [hci] at hc
      cases hc
    rw [hcj hji] at hc ⊢
    rw [htj hji]
    exact h.out j pos hc
  case checked => exact h.checked
  case copied => exact h.copied

/-- The store that clears `ready`. -/
theorem Inv.release {s : State cap ι} (h : Inv s) {i : ι} {pos : Nat}
    (hpc : (s.consumers i).pc = .copied pos) :
    Inv { s.setConsumer i { s.consumers i with pc := .idle } with
      queue := s.queue.setSlot pos { s.queue.slot pos with ready := false }
      history := { s.history with
        returned := s.history.returned ++ [(s.history.ticket i, (s.consumers i).out)] } } := by
  have hheld : (s.consumers i).pc.held = some pos := by
    rw [hpc]
    rfl
  have hslot : slotOf cap pos = slotOf cap (s.history.ticket i) := by
    rw [h.held_pos i pos hheld, slotOf_wrap64]
  have hmine := h.held_inRing i pos hheld
  have hmlt := h.held_lt i pos hheld
  set s' : State cap ι := { s.setConsumer i { s.consumers i with pc := .idle } with
    queue := s.queue.setSlot pos { s.queue.slot pos with ready := false }
    history := { s.history with
      returned := s.history.returned ++ [(s.history.ticket i, (s.consumers i).out)] } } with hs'
  -- Only `i` lets go; whoever holds a slot held it before.
  have hold : ∀ {j pos'}, (s'.consumers j).pc.held = some pos' →
      j ≠ i ∧ (s.consumers j).pc.held = some pos' := by
    intro j pos' hj
    by_cases hji : j = i
    · rw [hji] at hj
      have hci : s'.consumers i = { s.consumers i with pc := .idle } := setConsumer_self s i _
      rw [hci] at hj
      cases hj
    · have hcj : s'.consumers j = s.consumers j := setConsumer_of_ne s hji _
      rw [hcj] at hj
      exact ⟨hji, hj⟩
  have hring : ∀ {p}, InRing s.queue s.history.accepted p → p ≠ s.history.ticket i →
      InRing s'.queue s'.history.accepted p := by
    intro p hp hne
    refine hp.setSlot ?_ _
    rw [hslot]
    intro e
    have h1 := hp.near
    have h2 := hp.lt
    have h3 := hmine.near
    have h4 := hmine.lt
    exact hne (eq_of_slotOf_eq e (by omega) (by omega))
  -- A slot that is ready now was ready before, and is not the one released.
  have hready : ∀ {x}, (s'.queue.data x).ready = true →
      x ≠ slotOf cap pos ∧ (s.queue.data x).ready = true := by
    intro x hx
    by_cases he : x = slotOf cap pos
    · have hself : s'.queue.data x = { s.queue.slot pos with ready := false } := by
        rw [he]
        exact ConnectionQueue.setSlot_data_self _ _ _
      rw [hself] at hx
      cases hx
    · have hother : s'.queue.data x = s.queue.data x := ConnectionQueue.setSlot_data_of_ne _ he _
      rw [hother] at hx
      exact ⟨he, hx⟩
  have hfree : ∀ {x}, (s.queue.data x).ready = false →
      (s'.queue.data x).ready = false ∧ (s'.queue.data x).payload = (s.queue.data x).payload := by
    intro x hx
    by_cases he : x = slotOf cap pos
    · have hself : s'.queue.data x = { s.queue.slot pos with ready := false } := by
        rw [he]
        exact ConnectionQueue.setSlot_data_self _ _ _
      rw [hself, he]
      exact ⟨rfl, rfl⟩
    · have hother : s'.queue.data x = s.queue.data x := ConnectionQueue.setSlot_data_of_ne _ he _
      rw [hother]
      exact ⟨hx, rfl⟩
  constructor
  case toDelivered =>
    refine ⟨h.order, h.head, h.tail, h.no_pass, ?_, ?_⟩
    · show ((s.history.returned ++ [(s.history.ticket i, (s.consumers i).out)]).map Prod.fst).Nodup
      rw [List.map_append, List.nodup_append]
      refine ⟨h.once, List.nodup_singleton _, ?_⟩
      intro a ha b hb e
      rw [List.map_singleton, List.mem_singleton] at hb
      rw [e, hb] at ha
      exact h.held_unreturned i pos hheld ha
    · intro r hr
      rcases List.mem_append.1 hr with hr | hr
      · exact h.payload r hr
      · rw [List.mem_singleton.1 hr]
        exact ⟨hmlt, h.out i pos hpc⟩
  case pending =>
    intro p h1 h2
    have h1' : s.history.claimed.length ≤ p := h1
    exact hring (h.pending p h1 h2) (by omega)
  case held_pos => exact fun j pos' hj => h.held_pos j pos' (hold hj).2
  case held_lt => exact fun j pos' hj => h.held_lt j pos' (hold hj).2
  case held_inRing =>
    intro j pos' hj
    obtain ⟨hji, hj'⟩ := hold hj
    exact hring (h.held_inRing j pos' hj') (h.held_apart j i pos' pos hji hj' hheld)
  case held_unreturned =>
    intro j pos' hj hm
    obtain ⟨hji, hj'⟩ := hold hj
    have hm' : s.history.ticket j ∈
        (s.history.returned ++ [(s.history.ticket i, (s.consumers i).out)]).map Prod.fst := hm
    rw [List.map_append, List.map_singleton, List.mem_append, List.mem_singleton] at hm'
    rcases hm' with hm' | hm'
    · exact h.held_unreturned j pos' hj' hm'
    · exact h.held_apart j i pos' pos hji hj' hheld hm'
  case held_apart =>
    exact fun j k p p' hne hj hk => h.held_apart j k p p' hne (hold hj).2 (hold hk).2
  case cover =>
    intro x hx
    obtain ⟨hne, hx'⟩ := hready hx
    obtain ⟨p, hpx, hp, hl | ⟨j, pos', hj, ht⟩⟩ := h.cover x hx'
    -- A position below the tail, or a ticket that another consumer holds.
    · exact ⟨p, hpx, hp, Or.inl hl⟩
    · have hji : j ≠ i := by
        rintro rfl
        rw [← hpx, ← ht, hslot] at hne
        exact hne rfl
      refine ⟨p, hpx, hp, Or.inr ⟨j, pos', ?_, ht⟩⟩
      have hcj : s'.consumers j = s.consumers j := setConsumer_of_ne s hji _
      rw [hcj]
      exact hj
  case out =>
    intro j pos' hc
    have hc' : (s'.consumers j).pc.held = some pos' := by
      rw [hc]
      rfl
    have hcj : s'.consumers j = s.consumers j := setConsumer_of_ne s (hold hc').1 _
    rw [hcj] at hc ⊢
    exact h.out j pos' hc
  case checked => exact fun c hc => (hfree (h.checked c hc)).1
  case copied =>
    intro c hc
    obtain ⟨h1, h2⟩ := h.copied c hc
    obtain ⟨h3, h4⟩ := hfree h1
    exact ⟨h3, h4.trans h2⟩

/-! ## Steps and runs -/

/-- A step inside `dequeue_connection` keeps the invariant. -/
theorem Inv.consumerStep {s s' : State cap ι} (h : Inv s) {i : ι}
    (hg : ClaimsFresh s (.consume i)) (hs : consumerStep s i = some s') : Inv s' := by
  unfold Queue.consumerStep at hs
  cases hpc : (s.consumers i).pc with
  | idle =>
      simp only [hpc] at hs
      cases hs
  | atSlot pos =>
      simp only [hpc] at hs
      split at hs <;> cases hs
      · exact h.setConsumer (by rw [hpc]; rfl) nofun
      · exact h.setConsumer (by rw [hpc]; rfl) nofun
  | sawEmpty pos =>
      simp only [hpc] at hs
      split at hs <;> cases hs
      · exact h.setConsumer (by rw [hpc]; rfl) nofun
      · exact h.setConsumer (by rw [hpc]; rfl) nofun
  | sawReady pos =>
      simp only [hpc] at hs
      cases hs
      by_cases hcas : s.queue.headId = pos
      · subst hcas
        exact h.claim hpc ((h.fresh hpc).1 hg)
      · unfold claimStep
        rw [if_neg hcas]
        exact h.setConsumer (by rw [hpc]; rfl) nofun
  | claimed pos =>
      simp only [hpc] at hs
      cases hs
      have hheld : (s.consumers i).pc.held = some pos := by
        rw [hpc]
        rfl
      refine h.setConsumer hheld.symm ?_
      intro _ _
      rw [connectionCopyPayload_payload, ConnectionQueue.slot, h.held_pos i pos hheld,
        slotOf_wrap64]
      exact (h.held_inRing i pos hheld).payload
  | copied pos =>
      simp only [hpc] at hs
      cases hs
      exact h.release hpc

/-- The step lemma. -/
theorem Inv.step {s s' : State cap ι} (h : Inv s) {a : Action ι} (hg : ClaimsFresh s a)
    (hs : step s a = some s') : Inv s' := by
  cases a with
  | enqueue c =>
      simp only [Queue.step] at hs
      split at hs
      · rename_i hidle
        cases hs
        exact h.enqueueLoad c
      · cases hs
  | produce =>
      simp only [Queue.step, producerStep] at hs
      cases hpc : s.producer with
      | idle =>
          rw [hpc] at hs
          cases hs
      | checked c =>
          rw [hpc] at hs
          cases hs
          exact h.producerCopy hpc
      | copied c =>
          rw [hpc] at hs
          cases hs
          exact h.producerStore hpc
  | dequeue i out =>
      simp only [Queue.step] at hs
      split at hs
      · rename_i hidle
        cases hs
        exact h.setConsumer (by rw [hidle]; rfl) nofun
      · cases hs
  | consume i => exact h.consumerStep hg hs

/-- A step that is not fresh takes `head_id` past `tail_id`. -/
theorem Inv.not_delivered {s s' : State cap ι} (h : Inv s) {a : Action ι}
    (hg : ¬ ClaimsFresh s a) (hs : Queue.step s a = some s') : ¬ Delivered s' := by
  cases a with
  | enqueue c => exact absurd trivial hg
  | produce => exact absurd trivial hg
  | dequeue i out => exact absurd trivial hg
  | consume i =>
      have hpc : (s.consumers i).pc = .sawReady s.queue.headId := by
        by_contra hn
        exact hg fun hpc => absurd hpc hn
      rw [h.fresh hpc] at hg
      simp only [Queue.step, Queue.consumerStep, hpc, claimStep, if_true] at hs
      cases hs
      intro hd
      have hle : (s.history.claimed ++ [s.queue.headId]).length ≤ s.history.accepted.length :=
        hd.no_pass
      rw [List.length_append, List.length_singleton] at hle
      omega

/-- Along any interleaving the queue delivers every accepted connection at most
once, in order and with its payload, if and only if no compare-exchange succeeds
on a slot that is empty or still held. -/
theorem delivered_iff {s : State cap ι} (h : Init s) (acts : List (Action ι)) :
    (∀ t ∈ runStates step s acts, Delivered t) ↔ AllSteps step ClaimsFresh s acts :=
  forall_runStates_iff (fun _ hi => hi.toDelivered) (fun _ _ _ hi hg hs => hi.step hg hs)
    (fun _ _ _ hi hg hs => hi.not_delivered hg hs) h.inv acts

/-! ## A stalled consumer -/

/-- What `tiny_runtime` sets up: zeroed memory and nobody inside a call. -/
def start (cap : Capacity) (ι : Type) : State cap ι where
  queue := ⟨fun _ => ⟨0, (0, 0), 0, 0, 0, false⟩, 0, 0⟩
  producer := .idle
  consumers := fun _ => ⟨.idle, ⟨0, (0, 0), 0, 0, 0, false⟩⟩
  history := ⟨[], [], [], [], fun _ => 0⟩

theorem start_init (cap : Capacity) (ι : Type) : Init (start cap ι) :=
  ⟨fun _ => rfl, rfl, rfl, rfl, fun _ => rfl, rfl, rfl, rfl⟩

/-- A connection that is told apart by its descriptor. -/
def withFd (fd : Int) : Connection := ⟨0, (0, 0), fd, 0, 0, false⟩

/-- A ring with two slots. -/
def capacityTwo : Capacity := ⟨1, by decide, by decide⟩

/-- Consumer 0 claims the first connection and stalls before its copy. Consumer 1
takes the second, comes round to the slot of the first, which still says ready,
and claims position 2, that nothing was enqueued at. Both return the first. -/
def stalledRun : List (Action (Fin 2)) :=
  let i : Fin 2 := ⟨0, Nat.zero_lt_two⟩
  let j : Fin 2 := ⟨1, Nat.one_lt_two⟩
  [.enqueue (withFd 5), .produce, .produce,
    .dequeue i (withFd 0), .consume i, .consume i,
    .enqueue (withFd 6), .produce, .produce,
    .dequeue j (withFd 0), .consume j, .consume j, .consume j, .consume j,
    .dequeue j (withFd 0), .consume j, .consume j, .consume j, .consume j,
    .consume i, .consume i]

example : ((runStates step (start capacityTwo (Fin 2)) stalledRun).getLast?.map fun t =>
    t.history.returned.map fun r => (r.1, r.2.fd)) = some [(1, 6), (2, 5), (0, 5)] := by
  decide

/-- The second claim of a slot makes `head_id` pass `tail_id`. -/
theorem not_always_delivered : ¬ ∀ (cap : Capacity) (ι : Type) [DecidableEq ι] (s : State cap ι),
    Init s → ∀ acts, ∀ t ∈ runStates step s acts, Delivered t := by
  intro h
  have hrun := h capacityTwo (Fin 2) (start capacityTwo (Fin 2)) (start_init _ _) stalledRun
  have hle : ∀ x ∈ (runStates step (start capacityTwo (Fin 2)) stalledRun).map
      (fun t => (t.history.claimed.length, t.history.accepted.length)), x.1 ≤ x.2 := by
    intro x hx
    obtain ⟨t, ht, rfl⟩ := List.mem_map.1 hx
    exact (hrun t ht).no_pass
  revert hle
  decide

/-- The exact condition on the run of the stalled consumer. -/
theorem delivered_iff_stalledRun :
    (∀ t ∈ runStates step (start capacityTwo (Fin 2)) stalledRun, Delivered t) ↔
      AllSteps step ClaimsFresh (start capacityTwo (Fin 2)) stalledRun :=
  delivered_iff (start_init capacityTwo (Fin 2)) stalledRun

end Consumers

end TinyServer.Queue
