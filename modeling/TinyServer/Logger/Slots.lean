import TinyServer.Logger.Queue

/-!
# Who owns a slot of the log queue

A slot is written by the producer that claimed its position, from the claim to the store of
`ready`, and then belongs to the consumer until the store of `head_id`. `Inv` says so in
terms of positions that never wrap; the counters are their values modulo `2 ^ 32`.
-/

set_option autoImplicit false

namespace TinyServer.Logger

open TinyServer.Lib
open TinyServer.Queue (slotOf slotOf_val slotOf_eq_iff eq_of_slotOf_eq)

variable {ι : Type}

/-! ## Entries and counters -/

theorem logCopy_text (dst src : LogEntry) : (logCopy dst src).text = src.text := by
  apply List.ext_getElem
  · simp only [LogEntry.text, logCopy, List.length_take, List.length_ofFn]
  · intro k h₁ h₂
    simp only [LogEntry.text, logCopy, List.getElem_take, List.getElem_ofFn]
    have hk : k < src.len.val := by
      rw [LogEntry.text, List.length_take] at h₂
      exact lt_of_lt_of_le h₂ (Nat.min_le_left ..)
    exact if_pos (Fin.lt_def.2 hk)

/-- The copy has the payload of the message. -/
theorem logCopy_payload (dst src : LogEntry) : (logCopy dst src).payload = src.payload := by
  rw [LogEntry.payload, logCopy_text]
  rfl

theorem capacity_size : logCapacity.size = 128 := rfl

/-- The ring size divides `2 ^ 32`, so a wrapped counter names the same slot. -/
theorem slotOf_wrap32 (n : Nat) : slotOf logCapacity (wrap32 n) = slotOf logCapacity n := by
  rw [slotOf_eq_iff, capacity_size, wrap32]
  exact Nat.mod_mod_of_dvd n (by decide)

/-- The next index wraps as the count does. -/
theorem wrap32_succ (n : Nat) : wrap32 (wrap32 n + 1) = wrap32 (n + 1) := by
  rw [wrap32, wrap32, wrap32]
  omega

/-- Positions less than a round apart have different slots. -/
theorem slot_inj {p q : Nat} (h : slotOf logCapacity p = slotOf logCapacity q) (hp : p < q + 128)
    (hq : q < p + 128) : p = q :=
  eq_of_slotOf_eq h hp hq

/-- Counters less than `2 ^ 32` apart are told apart by their wrapped values. -/
theorem wrap32_inj {a b : Nat} (h : wrap32 a = wrap32 b) (hle : a ≤ b) (hlt : b < a + 2 ^ 32) :
    a = b := by
  rw [wrap32, wrap32] at h
  omega

/-- The test passes exactly for a tail that is ahead of the head by less than the ring, if
the tail is less than `2 ^ 31` behind the head. -/
theorem sub32_lt_iff {tail head : Nat} (hbehind : head < tail + 2 ^ 31) (hahead : tail ≤ head + 128) :
    sub32 (wrap32 tail) (wrap32 head) < LOG_QUEUE_SIZE ↔ head ≤ tail ∧ tail < head + 128 := by
  rw [sub32, wrap32, wrap32, LOG_QUEUE_SIZE]
  omega

/-! ## The property and the condition -/

/-- Before its claim, a call has been passed by fewer than `2 ^ 31` claims. -/
def FewClaims (s : State ι) : Action ι → Prop
  | .produce i =>
      match s.producers i with
      | .readHead _ _ => s.history.claimed.length < s.history.begun i + 2 ^ 31
      | .checked _ _ => s.history.claimed.length < s.history.begun i + 2 ^ 31
      | _ => True
  | _ => True

/-- The message of the position `p` is in its slot. -/
def InSlot (s : State ι) (p : Nat) : Prop :=
  (s.queue.data (slotOf logCapacity p)).ready = true ∧
    (s.history.claimed[p]?).map LogEntry.payload
      = some (s.queue.data (slotOf logCapacity p)).payload

/-- The producer `i` writes the slot of the position `p`. -/
def Writes (s : State ι) (i : ι) (p : Nat) : Prop :=
  (s.producers i).holds ≠ none ∧ s.history.mark i = p

/-- The dequeued messages are the first accepted ones, in order and unchanged. Each other
accepted message is in its slot, or its producer still writes it, or the consumer is about
to finish with it; and a producer writes only the slot of a position whose predecessors
there were all dequeued. -/
structure Delivered (s : State ι) : Prop where
  le : s.history.dequeued.length ≤ s.history.claimed.length
  order : s.history.dequeued.map LogEntry.payload
    = (s.history.claimed.take s.history.dequeued.length).map LogEntry.payload
  kept : ∀ p, s.history.dequeued.length ≤ p → p < s.history.claimed.length →
    InSlot s p ∨ (∃ i, Writes s i p) ∨
      (p = s.history.dequeued.length ∧ ∃ head, s.consumer.pc = .cleared head)
  drained : s.queue.headId = s.queue.tailId →
    s.history.dequeued.length = s.history.claimed.length
  apart : ∀ i j p q, i ≠ j → Writes s i p → Writes s j q → slotOf logCapacity p ≠ slotOf logCapacity q
  writes : ∀ i p l pos, Writes s i p → (s.producers i).holds = some (l, pos) →
    slotOf logCapacity pos = slotOf logCapacity p ∧ (s.history.claimed[p]?) = some l ∧
      ∀ q, q < p → slotOf logCapacity q = slotOf logCapacity p → q < s.history.dequeued.length

/-! ## The invariant -/

/-- What a producer knows that has loaded `tail_id`. -/
structure Loaded (s : State ι) (i : ι) (tail : Nat) : Prop where
  tail : tail = wrap32 (s.history.mark i)
  begun : s.history.begun i ≤ s.history.mark i
  mark : s.history.mark i ≤ s.history.claimed.length

/-- What a producer owns that has claimed a position. -/
structure Held (s : State ι) (i : ι) (l : LogEntry) (pos : Nat) : Prop where
  pos : pos = wrap32 (s.history.mark i)
  ge : s.history.dequeued.length ≤ s.history.mark i
  lt : s.history.mark i < s.history.claimed.length
  own : s.history.claimed[s.history.mark i]? = some l
  unready : (s.queue.data (slotOf logCapacity (s.history.mark i))).ready = false

/-- What the consumer knows at each point of its call. -/
def ConsumerOk (s : State ι) : Prop :=
  match s.consumer.pc with
  | .idle => True
  | .readTail head => head = wrap32 s.history.dequeued.length
  | .waiting head =>
      head = wrap32 s.history.dequeued.length ∧
        s.history.dequeued.length < s.history.claimed.length
  | .sawReady head =>
      head = wrap32 s.history.dequeued.length ∧ InSlot s s.history.dequeued.length ∧
        s.history.dequeued.length < s.history.claimed.length
  | .copied head =>
      head = wrap32 s.history.dequeued.length ∧ InSlot s s.history.dequeued.length ∧
        s.history.dequeued.length < s.history.claimed.length ∧
        (s.history.claimed[s.history.dequeued.length]?).map LogEntry.payload
          = some s.consumer.out.payload
  | .cleared head =>
      head = wrap32 s.history.dequeued.length ∧
        (s.queue.data (slotOf logCapacity s.history.dequeued.length)).ready = false ∧
        (∀ i, ¬ Writes s i s.history.dequeued.length) ∧
        s.history.dequeued.length < s.history.claimed.length ∧
        (s.history.claimed[s.history.dequeued.length]?).map LogEntry.payload
          = some s.consumer.out.payload

/-- What the producers know and own. -/
structure ProducersOk (s : State ι) : Prop where
  begun : ∀ i, s.history.begun i ≤ s.history.claimed.length
  loaded : ∀ i l tail, s.producers i = .readHead l tail → Loaded s i tail
  checked : ∀ i l tail, s.producers i = .checked l tail →
    Loaded s i tail ∧ s.history.mark i < s.history.dequeued.length + 128
  held : ∀ i l pos, (s.producers i).holds = some (l, pos) → Held s i l pos
  apart : ∀ i j, i ≠ j → (s.producers i).holds ≠ none → (s.producers j).holds ≠ none →
    s.history.mark i ≠ s.history.mark j
  copied : ∀ i l pos, s.producers i = .copied l pos →
    (s.queue.data (slotOf logCapacity (s.history.mark i))).payload = l.payload

/-- Where the messages are. -/
structure RingOk (s : State ι) : Prop where
  kept : ∀ p, s.history.dequeued.length ≤ p → p < s.history.claimed.length →
    InSlot s p ∨ (∃ i, Writes s i p) ∨
      (p = s.history.dequeued.length ∧ ∃ head, s.consumer.pc = .cleared head)
  /-- A ready slot has the message of a position that was not released. -/
  ready : ∀ x, (s.queue.data x).ready = true → ∃ p, slotOf logCapacity p = x ∧
    s.history.dequeued.length ≤ p ∧ p < s.history.claimed.length ∧ InSlot s p

/-- The invariant: the indices are the lengths of the histories, and each slot is in the state
that its positions give it. -/
structure Inv (s : State ι) : Prop where
  head : s.queue.headId = wrap32 s.history.dequeued.length
  tail : s.queue.tailId = wrap32 s.history.claimed.length
  le : s.history.dequeued.length ≤ s.history.claimed.length
  room : s.history.claimed.length ≤ s.history.dequeued.length + 128
  order : s.history.dequeued.map LogEntry.payload
    = (s.history.claimed.take s.history.dequeued.length).map LogEntry.payload
  ring : RingOk s
  producers : ProducersOk s
  consumer : ConsumerOk s

/-- The invariant says that every message is delivered. -/
theorem Inv.delivered {s : State ι} (h : Inv s) : Delivered s := by
  have hle := h.le
  have hroom := h.room
  refine ⟨h.le, h.order, h.ring.kept, fun heq => ?_, ?_, ?_⟩
  · rw [h.head, h.tail] at heq
    exact wrap32_inj heq h.le (by omega)
  · rintro i j p q hij ⟨hi, rfl⟩ ⟨hj, rfl⟩ heq
    obtain ⟨⟨l, pos⟩, hi'⟩ := Option.ne_none_iff_exists'.1 hi
    obtain ⟨⟨l', pos'⟩, hj'⟩ := Option.ne_none_iff_exists'.1 hj
    have h₁ := h.producers.held i l pos hi'
    have h₂ := h.producers.held j l' pos' hj'
    have hge := h₁.ge
    have hlt := h₁.lt
    have hge' := h₂.ge
    have hlt' := h₂.lt
    exact h.producers.apart i j hij hi hj (slot_inj heq (by omega) (by omega))
  · rintro i p l pos ⟨hi, rfl⟩ hpos
    have hheld := h.producers.held i l pos hpos
    have hlt := hheld.lt
    refine ⟨?_, hheld.own, fun q hq heq => ?_⟩
    · rw [hheld.pos, slotOf_wrap32]
    · -- Two positions of one slot are a round apart.
      by_contra hno
      have hsame := slot_inj heq (by omega) (by omega)
      omega

/-- The empty queue. -/
theorem start_inv (ι : Type) : Inv (start ι) where
  head := rfl
  tail := rfl
  le := Nat.le_refl 0
  room := Nat.zero_le _
  order := rfl
  ring := ⟨fun p _ hp => absurd hp (Nat.not_lt_zero p), nofun⟩
  producers := ⟨fun _ => Nat.le_refl 0, nofun, nofun, nofun, fun _ _ _ hi => absurd rfl hi, nofun⟩
  consumer := trivial

/-! ## Frames -/

/-- A message stays in a slot that nobody writes. -/
theorem InSlot.frame {s t : State ι} {p : Nat} (h : InSlot s p)
    (hdata : t.queue.data (slotOf logCapacity p) = s.queue.data (slotOf logCapacity p))
    (hclaimed : t.history.claimed[p]? = s.history.claimed[p]?) : InSlot t p := by
  rw [InSlot, hdata, hclaimed]
  exact h

/-- What was loaded stays loaded. -/
theorem Loaded.frame {s t : State ι} {i : ι} {tail : Nat} (h : Loaded s i tail)
    (hmark : t.history.mark i = s.history.mark i) (hbegun : t.history.begun i = s.history.begun i)
    (hle : s.history.claimed.length ≤ t.history.claimed.length) : Loaded t i tail := by
  constructor
  · rw [hmark]
    exact h.tail
  · rw [hmark, hbegun]
    exact h.begun
  · rw [hmark]
    exact Nat.le_trans h.mark hle

/-- A position stays with the thread that holds it. -/
theorem Held.frame {s t : State ι} {i : ι} {l : LogEntry} {pos : Nat} (h : Held s i l pos)
    (hmark : t.history.mark i = s.history.mark i)
    (hge : t.history.dequeued.length ≤ s.history.mark i)
    (hle : s.history.claimed.length ≤ t.history.claimed.length)
    (hown : t.history.claimed[s.history.mark i]? = s.history.claimed[s.history.mark i]?)
    (hready : (t.queue.data (slotOf logCapacity (s.history.mark i))).ready = false) :
    Held t i l pos := by
  constructor
  · rw [hmark]
    exact h.pos
  · rw [hmark]
    exact hge
  · rw [hmark]
    exact lt_of_lt_of_le h.lt hle
  · rw [hmark, hown]
    exact h.own
  · rw [hmark]
    exact hready

/-- The history's own field does not matter to the invariant. -/
theorem Inv.observe {s : State ι} (h : Inv s) : Inv s.observe := by
  refine ⟨h.head, h.tail, h.le, h.room, h.order, ⟨h.ring.kept, h.ring.ready⟩, ?_, h.consumer⟩
  refine ⟨h.producers.begun, ?_, ?_, ?_, h.producers.apart, h.producers.copied⟩
  · intro i l tail hpc
    exact (h.producers.loaded i l tail hpc).frame rfl rfl (Nat.le_refl _)
  · intro i l tail hpc
    obtain ⟨hloaded, hnear⟩ := h.producers.checked i l tail hpc
    exact ⟨hloaded.frame rfl rfl (Nat.le_refl _), hnear⟩
  · intro i l pos hpc
    have hheld := h.producers.held i l pos hpc
    exact hheld.frame rfl hheld.ge (Nat.le_refl _) rfl hheld.unready

/-- The consumer's knowledge survives a step of a producer that leaves alone the slot of
the position being consumed. -/
theorem ConsumerOk.frame {s t : State ι} (h : ConsumerOk s) (hconsumer : t.consumer = s.consumer)
    (hdequeued : t.history.dequeued = s.history.dequeued)
    (hle : s.history.claimed.length ≤ t.history.claimed.length)
    (hclaimed : ∀ p, p < s.history.claimed.length → t.history.claimed[p]? = s.history.claimed[p]?)
    (hslot : s.history.dequeued.length < s.history.claimed.length →
      InSlot s s.history.dequeued.length → InSlot t s.history.dequeued.length)
    (hfree : s.history.dequeued.length < s.history.claimed.length →
      (s.queue.data (slotOf logCapacity s.history.dequeued.length)).ready = false →
      (∀ i, ¬ Writes s i s.history.dequeued.length) →
      (t.queue.data (slotOf logCapacity s.history.dequeued.length)).ready = false ∧
        ∀ i, ¬ Writes t i s.history.dequeued.length) : ConsumerOk t := by
  rw [ConsumerOk] at h ⊢
  rw [hconsumer, hdequeued]
  cases hpc : s.consumer.pc with
  | idle => trivial
  | readTail head =>
      rw [hpc] at h
      exact h
  | waiting head =>
      rw [hpc] at h
      exact ⟨h.1, lt_of_lt_of_le h.2 hle⟩
  | sawReady head =>
      rw [hpc] at h
      exact ⟨h.1, hslot h.2.2 h.2.1, lt_of_lt_of_le h.2.2 hle⟩
  | copied head =>
      rw [hpc] at h
      obtain ⟨hhead, hin, hlt, hout⟩ := h
      refine ⟨hhead, hslot hlt hin, lt_of_lt_of_le hlt hle, ?_⟩
      rw [hclaimed _ hlt]
      exact hout
  | cleared head =>
      rw [hpc] at h
      obtain ⟨hhead, hready, hno, hlt, hout⟩ := h
      obtain ⟨hready', hno'⟩ := hfree hlt hready hno
      refine ⟨hhead, hready', hno', lt_of_lt_of_le hlt hle, ?_⟩
      rw [hclaimed _ hlt]
      exact hout

section Claims

variable {s : State ι}

/-- A ready slot is not one a producer writes. -/
theorem Held.slot_ne {i : ι} {l : LogEntry} {pos p : Nat} (h : Held s i l pos) (hp : InSlot s p) :
    slotOf logCapacity p ≠ slotOf logCapacity (s.history.mark i) := by
  intro heq
  have hready := hp.1
  rw [heq, h.unready] at hready
  cases hready

/-- The slot of a position is that of its mark. -/
theorem Held.slot_pos {i : ι} {l : LogEntry} {pos : Nat} (h : Held s i l pos) :
    slotOf logCapacity pos = slotOf logCapacity (s.history.mark i) := by
  rw [h.pos, slotOf_wrap32]

/-- Two producers write different slots. -/
theorem Inv.slot_ne (h : Inv s) {i j : ι} {l l' : LogEntry} {pos pos' : Nat} (hij : i ≠ j)
    (hi : (s.producers i).holds = some (l, pos)) (hj : (s.producers j).holds = some (l', pos')) :
    slotOf logCapacity (s.history.mark i) ≠ slotOf logCapacity (s.history.mark j) := by
  intro heq
  have hi' := h.producers.held i l pos hi
  have hj' := h.producers.held j l' pos' hj
  have hroom := h.room
  have hmark : s.history.mark i = s.history.mark j := by
    apply slot_inj heq
    · have hlt := hi'.lt
      have hge := hj'.ge
      omega
    · have hlt := hj'.lt
      have hge := hi'.ge
      omega
  exact h.producers.apart i j hij (hi ▸ Option.some_ne_none _) (hj ▸ Option.some_ne_none _) hmark

/-- The next position to be claimed has a slot that is not ready while the ring is not full. -/
theorem Inv.next_unready (h : Inv s) (hroom : s.history.claimed.length < s.history.dequeued.length + 128) :
    (s.queue.data (slotOf logCapacity s.history.claimed.length)).ready = false := by
  rw [← Bool.not_eq_true]
  intro hready
  obtain ⟨p, hslot, hge, hlt, -⟩ := h.ring.ready _ hready
  have heq := slot_inj hslot (by omega) (by omega)
  omega

/-- Nobody writes the slot of a position that is there. -/
theorem Inv.not_writes (h : Inv s) {p : Nat} (hp : InSlot s p) (i : ι) : ¬ Writes s i p := by
  rintro ⟨hi, rfl⟩
  obtain ⟨⟨l, pos⟩, hheld⟩ := Option.ne_none_iff_exists'.1 hi
  exact (h.producers.held i l pos hheld).slot_ne hp rfl

/-- A ready slot of the ring has the message of the position asked for. -/
theorem Inv.inSlot_of_ready (h : Inv s) {p : Nat} (hge : s.history.dequeued.length ≤ p)
    (hlt : p < s.history.claimed.length)
    (hready : (s.queue.data (slotOf logCapacity p)).ready = true) : InSlot s p := by
  obtain ⟨q, hslot, hge', hlt', hq⟩ := h.ring.ready _ hready
  have hroom := h.room
  have heq := slot_inj hslot (by omega) (by omega)
  rw [← heq]
  exact hq

end Claims

end TinyServer.Logger
