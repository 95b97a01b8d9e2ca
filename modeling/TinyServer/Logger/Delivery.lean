import TinyServer.Logger.Claims

/-!
# What the log queue delivers

As long as fewer than `2 ^ 31` messages are claimed by others during one call, the messages
come out in the order of their positions, each once and unchanged, and no producer writes a
slot before its last message was released (`log_delivered`). The counters may wrap any number
of times.
-/

set_option autoImplicit false

namespace TinyServer.Logger

open TinyServer.Lib
open TinyServer.Queue (slotOf)

variable {ι : Type}

section Consumers

variable {s t : State ι}

/-- The consumer leaves to the producers what they know and own: it clears `ready` bits at
most, and releases no position that is being written. -/
theorem ProducersOk.ofConsumer (h : ProducersOk s) (hproducers : t.producers = s.producers)
    (hclaimed : t.history.claimed = s.history.claimed) (hmark : t.history.mark = s.history.mark)
    (hbegun : t.history.begun = s.history.begun)
    (hle : s.history.dequeued.length ≤ t.history.dequeued.length)
    (hge : ∀ i p, Writes s i p → s.history.dequeued.length ≤ p → t.history.dequeued.length ≤ p)
    (hunready : ∀ x, (s.queue.data x).ready = false → (t.queue.data x).ready = false)
    (hpayload : ∀ x, (t.queue.data x).payload = (s.queue.data x).payload) : ProducersOk t := by
  constructor
  case begun =>
    rw [hbegun, hclaimed]
    exact h.begun
  case loaded =>
    intro i l tail hi
    rw [hproducers] at hi
    apply (h.loaded i l tail hi).frame
    · rw [hmark]
    · rw [hbegun]
    · rw [hclaimed]
  case checked =>
    intro i l tail hi
    rw [hproducers] at hi
    obtain ⟨hloaded, hnear⟩ := h.checked i l tail hi
    constructor
    · apply hloaded.frame
      · rw [hmark]
      · rw [hbegun]
      · rw [hclaimed]
    · rw [hmark]
      omega
  case held =>
    intro i l pos hi
    rw [hproducers] at hi
    have hheld := h.held i l pos hi
    apply hheld.frame
    · rw [hmark]
    · exact hge i _ ⟨hi ▸ Option.some_ne_none _, rfl⟩ hheld.ge
    · rw [hclaimed]
    · rw [hclaimed]
    · exact hunready _ hheld.unready
  case apart =>
    rw [hproducers, hmark]
    exact h.apart
  case copied =>
    intro i l pos hi
    rw [hproducers] at hi
    rw [hmark, hpayload]
    exact h.copied i l pos hi

/-- A step that changes the consumer's own variables only. -/
theorem Inv.ofRead (h : Inv s) (c : Consumer) (hnot : ∀ head, s.consumer.pc ≠ .cleared head)
    (hok : ConsumerOk { s with consumer := c }) : Inv { s with consumer := c } := by
  refine ⟨h.head, h.tail, h.le, h.room, h.order, ⟨?_, h.ring.ready⟩, ?_, hok⟩
  · intro p hge hlt
    rcases h.ring.kept p hge hlt with hp | hw | ⟨-, head, hhead⟩
    · exact Or.inl hp
    · exact Or.inr (Or.inl hw)
    · exact absurd hhead (hnot head)
  · apply h.producers.ofConsumer (t := { s with consumer := c }) rfl rfl rfl rfl (Nat.le_refl _)
    · exact fun _ _ _ hge => hge
    · exact fun _ hx => hx
    · exact fun _ => rfl

/-- The store that clears `ready`. -/
theorem Inv.clear (h : Inv s) {head : Nat} (hpc : s.consumer.pc = .copied head)
    (ht : t = { s with
      queue := s.queue.setSlot head { s.queue.slot head with ready := false }
      consumer := { s.consumer with pc := .cleared head } }) : Inv t := by
  have hok := h.consumer
  rw [ConsumerOk, hpc] at hok
  obtain ⟨hhead, hin, hlt, hout⟩ := hok
  -- The slot that is cleared is that of the message to be dequeued.
  have hslot : slotOf logCapacity head = slotOf logCapacity s.history.dequeued.length := by
    rw [hhead, slotOf_wrap32]
  have hproducers : t.producers = s.producers := by rw [ht]
  have hhistory : t.history = s.history := by rw [ht]
  have hself : t.queue.data (slotOf logCapacity s.history.dequeued.length)
      = { s.queue.data (slotOf logCapacity s.history.dequeued.length) with ready := false } := by
    rw [ht, ← hslot]
    exact Function.update_self ..
  have hdata : ∀ x, x ≠ slotOf logCapacity s.history.dequeued.length →
      t.queue.data x = s.queue.data x := by
    intro x hx
    rw [← hslot] at hx
    rw [ht]
    exact Function.update_of_ne hx ..
  -- Another message in the queue has another slot, for fewer than 256 are there.
  have hkeep : ∀ p, s.history.dequeued.length < p → p < s.history.claimed.length → InSlot s p →
      InSlot t p := by
    intro p hgt hplt hp
    have hroom := h.room
    apply hp.frame
    · apply hdata
      intro heq
      have hsame := slot_inj heq (by omega) (by omega)
      omega
    · rw [hhistory]
  have hw : ∀ i p, Writes t i p ↔ Writes s i p := by
    intro i p
    rw [Writes, Writes, hproducers, hhistory]
  refine ⟨?_, ?_, ?_, ?_, ?_, ⟨?kept, ?ready⟩, ?producers, ?consumer⟩
  · rw [hhistory, ← h.head, ht]
    rfl
  · rw [hhistory, ← h.tail, ht]
    rfl
  · rw [hhistory]
    exact h.le
  · rw [hhistory]
    exact h.room
  · rw [hhistory]
    exact h.order
  case kept =>
    intro p hge hplt
    rw [hhistory] at hge hplt ⊢
    by_cases hp : p = s.history.dequeued.length
    -- The message is copied out, and its slot is no longer ready.
    · exact Or.inr (Or.inr ⟨hp, head, by rw [ht]⟩)
    · rcases h.ring.kept p hge hplt with hslot' | ⟨i, hi⟩ | ⟨heq, -⟩
      · exact Or.inl (hkeep p (by omega) hplt hslot')
      · exact Or.inr (Or.inl ⟨i, (hw i p).2 hi⟩)
      · exact absurd heq hp
  case ready =>
    intro x hx
    have hne : x ≠ slotOf logCapacity s.history.dequeued.length := by
      rintro rfl
      rw [hself] at hx
      cases hx
    rw [hdata x hne] at hx
    obtain ⟨p, hslot', hge, hplt, hp⟩ := h.ring.ready x hx
    have hgt : p ≠ s.history.dequeued.length := by
      rintro rfl
      exact hne hslot'.symm
    rw [hhistory]
    exact ⟨p, hslot', hge, hplt, hkeep p (by omega) hplt hp⟩
  case producers =>
    apply h.producers.ofConsumer hproducers
    · rw [hhistory]
    · rw [hhistory]
    · rw [hhistory]
    · rw [hhistory]
    · intro i p _ hge
      rw [hhistory]
      exact hge
    · intro x hx
      by_cases heq : x = slotOf logCapacity s.history.dequeued.length
      · rw [heq, hself]
      · rw [hdata x heq]
        exact hx
    · intro x
      by_cases heq : x = slotOf logCapacity s.history.dequeued.length
      · rw [heq, hself]
        rfl
      · rw [hdata x heq]
  case consumer =>
    have hconsumer : t.consumer = { s.consumer with pc := .cleared head } := by rw [ht]
    rw [ConsumerOk, hconsumer, hhistory]
    refine ⟨hhead, ?_, ?_, hlt, hout⟩
    · rw [hself]
    · exact fun i hi => h.not_writes hin i ((hw i _).1 hi)

/-- The store of `head_id`. -/
theorem Inv.release (h : Inv s) {head : Nat} (hpc : s.consumer.pc = .cleared head)
    (ht : t = { s with
      queue := { s.queue with headId := wrap32 (head + 1) }
      consumer := { s.consumer with pc := .idle }
      history := { s.history with dequeued := s.history.dequeued ++ [s.consumer.out] } }) : Inv t := by
  -- No producer writes to the slot, and the record was copied out of it.
  have hok := h.consumer
  rw [ConsumerOk, hpc] at hok
  obtain ⟨hhead, hready, hno, hlt, hout⟩ := hok
  have hproducers : t.producers = s.producers := by rw [ht]
  have hdata : t.queue.data = s.queue.data := by rw [ht]
  have hclaimed : t.history.claimed = s.history.claimed := by rw [ht]
  have hmark : t.history.mark = s.history.mark := by rw [ht]
  have hdequeued : t.history.dequeued = s.history.dequeued ++ [s.consumer.out] := by rw [ht]
  have hlen : t.history.dequeued.length = s.history.dequeued.length + 1 := by
    rw [hdequeued, List.length_append, List.length_singleton]
  have hin : ∀ p, InSlot s p → InSlot t p := by
    intro p hp
    apply hp.frame
    · rw [hdata]
    · rw [hclaimed]
  have hw : ∀ i p, Writes s i p → Writes t i p := by
    intro i p hi
    rw [Writes, hproducers, hmark]
    exact hi
  refine ⟨?_, ?_, ?_, ?_, ?order, ⟨?kept, ?ready⟩, ?producers, ?consumer⟩
  · rw [hlen, ← wrap32_succ, ← hhead, ht]
  · rw [hclaimed, ← h.tail, ht]
  · rw [hlen, hclaimed]
    exact hlt
  · have hroom := h.room
    rw [hlen, hclaimed]
    omega
  case order =>
    -- The record that was copied out is the next accepted message.
    obtain ⟨l, hl, hpayload⟩ := Option.map_eq_some_iff.1 hout
    rw [hlen, hclaimed, hdequeued, List.map_append, h.order, List.take_add_one, hl, List.map_append]
    rw [Option.toList_some, List.map_singleton, List.map_singleton, hpayload]
  case kept =>
    intro p hge hplt
    rw [hlen] at hge
    rw [hclaimed] at hplt
    rcases h.ring.kept p (by omega) hplt with hp | ⟨i, hi⟩ | ⟨heq, -⟩
    · exact Or.inl (hin p hp)
    · exact Or.inr (Or.inl ⟨i, hw i p hi⟩)
    · omega
  case ready =>
    intro x hx
    rw [hdata] at hx
    obtain ⟨p, hslot, hge, hplt, hp⟩ := h.ring.ready x hx
    -- The slot that is released was cleared.
    have hne : p ≠ s.history.dequeued.length := by
      rintro rfl
      rw [hslot, hx] at hready
      cases hready
    rw [hlen, hclaimed]
    exact ⟨p, hslot, by omega, hplt, hin p hp⟩
  case producers =>
    apply h.producers.ofConsumer hproducers hclaimed hmark
    · rw [ht]
    · omega
    · intro i p hi hge
      have hne : p ≠ s.history.dequeued.length := by
        rintro rfl
        exact hno i hi
      omega
    · intro x hx
      rw [hdata]
      exact hx
    · intro x
      rw [hdata]
  case consumer =>
    have hconsumer : t.consumer.pc = .idle := by rw [ht]
    rw [ConsumerOk, hconsumer]
    trivial

/-- A step inside `dequeue_log` keeps the invariant. -/
theorem Inv.consumerStep (h : Inv s) (hst : consumerStep s = some t) : Inv t := by
  have hok := h.consumer
  rw [ConsumerOk] at hok
  rw [TinyServer.Logger.consumerStep] at hst
  cases hpc : s.consumer.pc with
  | idle =>
      rw [hpc] at hst
      cases hst
  | readTail head =>
      rw [hpc] at hst hok
      have hnot : ∀ head', s.consumer.pc ≠ .cleared head' := by
        rw [hpc]
        rintro _ ⟨⟩
      dsimp only at hst
      -- The queue is empty, or the slot of the head is waited for.
      by_cases hempty : head = s.queue.tailId
      · rw [if_pos hempty] at hst
        cases hst
        exact h.ofRead _ hnot trivial
      · rw [if_neg hempty] at hst
        cases hst
        apply h.ofRead _ hnot
        refine ⟨hok, ?_⟩
        have hle := h.le
        have hne : s.history.dequeued.length ≠ s.history.claimed.length := by
          intro heq
          exact hempty (by rw [hok, heq, h.tail])
        change s.history.dequeued.length < s.history.claimed.length
        omega
  | waiting head =>
      rw [hpc] at hst hok
      have hnot : ∀ head', s.consumer.pc ≠ .cleared head' := by
        rw [hpc]
        rintro _ ⟨⟩
      dsimp only at hst
      by_cases hready : (s.queue.slot head).ready = true
      · rw [if_pos hready] at hst
        cases hst
        apply h.ofRead _ hnot
        refine ⟨hok.1, ?_, hok.2⟩
        -- A ready slot at the head holds the next message.
        change (s.queue.data (slotOf logCapacity head)).ready = true at hready
        rw [hok.1, slotOf_wrap32] at hready
        exact h.inSlot_of_ready (Nat.le_refl _) hok.2 hready
      · rw [if_neg hready] at hst
        cases hst
        exact h
  | sawReady head =>
      rw [hpc] at hst hok
      cases hst
      obtain ⟨hhead, hin, hlt⟩ := hok
      apply h.ofRead
      · rw [hpc]
        rintro _ ⟨⟩
      · refine ⟨hhead, hin, hlt, ?_⟩
        have hslot : s.queue.slot head
            = s.queue.data (slotOf logCapacity s.history.dequeued.length) := by
          change s.queue.data (slotOf logCapacity head) = _
          rw [hhead, slotOf_wrap32]
        change _ = some (logCopy s.consumer.out (s.queue.slot head)).payload
        rw [logCopy_payload, hslot]
        exact hin.2
  | copied head =>
      rw [hpc] at hst
      cases hst
      exact h.clear hpc rfl
  | cleared head =>
      rw [hpc] at hst
      cases hst
      exact h.release hpc rfl

end Consumers

/-! ## Steps and runs -/

variable [DecidableEq ι]

/-- The step lemma. -/
theorem Inv.step {s t : State ι} {a : Action ι} (h : Inv s) (hfew : FewClaims s a)
    (hst : step s a = some t) : Inv t := by
  obtain ⟨u, hmove, rfl⟩ := Option.map_eq_some_iff.1 hst
  apply Inv.observe
  cases a with
  | enqueue i l =>
      rw [move] at hmove
      split at hmove
      case isTrue hidle =>
        cases hmove
        apply h.begin
        cases hpc : s.producers i with
        | idle => rfl
        | readTail | readHead | checked | claimed | copied =>
            rw [hpc] at hidle
            cases hidle
      case isFalse => cases hmove
  | produce i => exact h.producerStep hfew hmove
  | dequeue out =>
      rw [move] at hmove
      split at hmove
      case isTrue hidle =>
        cases hmove
        apply h.ofRead
        · rw [hidle]
          nofun
        · exact h.head
      case isFalse => cases hmove
  | consume => exact h.consumerStep hmove

/-- The messages come out in the order of their positions, each once and unchanged, and no
slot is written before it was released. -/
theorem log_delivered (acts : List (Action ι)) (h : AllSteps step FewClaims (start ι) acts) :
    ∀ t ∈ runStates step (start ι) acts, Delivered t := by
  intro t ht
  have hinv : Inv t :=
    AllSteps.invariant (fun s a s' hs hfew hst => hs.step hfew hst) (start_inv ι) h t ht
  exact hinv.delivered

instance FewClaims.decidable (s : State ι) : ∀ a, Decidable (FewClaims s a)
  | .enqueue _ _ => isTrue trivial
  | .dequeue _ => isTrue trivial
  | .consume => isTrue trivial
  | .produce i =>
      have few : Decidable (s.history.claimed.length < s.history.begun i + 2 ^ 31) := inferInstance
      match hpc : s.producers i with
      | .readHead _ _ => decidable_of_iff _ (by rw [FewClaims, hpc])
      | .checked _ _ => decidable_of_iff _ (by rw [FewClaims, hpc])
      | .idle => isTrue (by rw [FewClaims, hpc]; trivial)
      | .readTail _ => isTrue (by rw [FewClaims, hpc]; trivial)
      | .claimed _ _ => isTrue (by rw [FewClaims, hpc]; trivial)
      | .copied _ _ => isTrue (by rw [FewClaims, hpc]; trivial)

/-- One message goes in and comes out. -/
def oneMessage (i : ι) : List (Action ι) :=
  .enqueue i .zero :: List.replicate 5 (.produce i) ++ .dequeue .zero :: List.replicate 5 .consume

/-- A message of one byte. -/
def byteEntry (b : UInt8) : LogEntry :=
  { LogEntry.zero with len := ⟨1, by decide⟩, message := fun _ => b }

/-- Two threads log at the same time. Both see an empty queue, and the second one claims first; the
first one tries again, and its message is ready while the consumer still waits for the other. -/
def twoMessages : List (Action (Fin 2)) :=
  let i : Fin 2 := ⟨0, Nat.zero_lt_two⟩
  let j : Fin 2 := ⟨1, Nat.one_lt_two⟩
  [.enqueue i (byteEntry 97), .enqueue j (byteEntry 98), .produce i, .produce j, .produce j, .produce i,
    .produce j, .produce i, .dequeue .zero, .consume] ++ List.replicate 5 (.produce i) ++
    [.consume, .produce j, .produce j] ++ List.replicate 4 .consume ++
    .dequeue .zero :: List.replicate 5 .consume

/-- Two threads log at the same time; the second is the first to claim. -/
theorem log_delivered_twoMessages : ∃ t ∈ runStates step (start (Fin 2)) twoMessages,
    t.history.dequeued.map LogEntry.text = [[98], [97]] ∧ Delivered t := by
  obtain ⟨t, ht, htexts⟩ : ∃ t ∈ runStates step (start (Fin 2)) twoMessages,
      t.history.dequeued.map LogEntry.text = [[98], [97]] := exists_of_run (by decide +kernel)
  exact ⟨t, ht, htexts, log_delivered twoMessages (by decide +kernel) t ht⟩

end TinyServer.Logger
