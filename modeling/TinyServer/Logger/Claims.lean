import TinyServer.Logger.Slots

/-!
# The producers' steps

Whatever a producer does in one step, it does with its own variables, with the end of the
accepted messages and with the slot of a position it holds (`ProducerMove`). That leaves the
others' part of the invariant as it was (`Inv.ofProducer`); each step then owes its own.
-/

set_option autoImplicit false

namespace TinyServer.Logger

open TinyServer.Queue (slotOf)

variable {ι : Type}

/-- What a step of the producer `i` leaves alone, and how the list of claims grows. -/
structure ProducerMove (s t : State ι) (i : ι) : Prop where
  others : ∀ j, j ≠ i → t.producers j = s.producers j ∧ t.history.mark j = s.history.mark j ∧
    t.history.begun j = s.history.begun j
  head : t.queue.headId = s.queue.headId
  consumer : t.consumer = s.consumer
  dequeued : t.history.dequeued = s.history.dequeued
  grows : s.history.claimed.length ≤ t.history.claimed.length
  claimed : ∀ p, p < s.history.claimed.length → t.history.claimed[p]? = s.history.claimed[p]?
  data : ∀ x, t.queue.data x = s.queue.data x ∨
    ((s.producers i).holds ≠ none ∧ x = slotOf logCapacity (s.history.mark i))

/-- What a producer owes for its own step. -/
structure OwnPart (s t : State ι) (i : ι) : Prop where
  tail : t.queue.tailId = wrap32 t.history.claimed.length
  room : t.history.claimed.length ≤ s.history.dequeued.length + 128
  begun : t.history.begun i ≤ t.history.claimed.length
  loaded : ∀ l tail, t.producers i = .readHead l tail → Loaded t i tail
  checked : ∀ l tail, t.producers i = .checked l tail →
    Loaded t i tail ∧ t.history.mark i < s.history.dequeued.length + 128
  held : ∀ l pos, (t.producers i).holds = some (l, pos) → Held t i l pos
  copied : ∀ l pos, t.producers i = .copied l pos →
    (t.queue.data (slotOf logCapacity (t.history.mark i))).payload = l.payload
  apart : (t.producers i).holds ≠ none → ∀ j, j ≠ i → (s.producers j).holds ≠ none →
    s.history.mark j ≠ t.history.mark i
  /-- A new position is the producer's own. -/
  fresh : ∀ p, s.history.claimed.length ≤ p → p < t.history.claimed.length → Writes t i p
  /-- It goes on writing its slot or leaves the message there, and does neither in between. -/
  done : ∀ p, Writes s i p → Writes t i p ∨ InSlot t p
  ready : ∀ p, Writes s i p → (t.queue.data (slotOf logCapacity p)).ready = true → InSlot t p
  /-- It takes over no older position. -/
  old : ∀ p, p < s.history.claimed.length → Writes t i p → Writes s i p

section Frame

variable {s t : State ι} {i : ι}

/-- A message in its slot stays there. -/
theorem ProducerMove.inSlot (m : ProducerMove s t i) (h : Inv s) {p : Nat}
    (hlt : p < s.history.claimed.length) (hp : InSlot s p) : InSlot t p := by
  apply hp.frame
  · rcases m.data (slotOf logCapacity p) with hdata | ⟨hi, hslot⟩
    · exact hdata
    · -- A slot that is being written is not ready.
      obtain ⟨⟨l, pos⟩, hi'⟩ := Option.ne_none_iff_exists'.1 hi
      exact absurd hslot ((h.producers.held i l pos hi').slot_ne hp)
  · exact m.claimed p hlt

/-- The other producers write what they wrote. -/
theorem ProducerMove.writes (m : ProducerMove s t i) {j : ι} (hji : j ≠ i) (p : Nat) :
    Writes t j p ↔ Writes s j p := by
  obtain ⟨hpc, hmark, -⟩ := m.others j hji
  rw [Writes, Writes, hpc, hmark]

/-- The slots of the other producers are left alone. -/
theorem ProducerMove.data_other (m : ProducerMove s t i) (h : Inv s) {j : ι} (hji : j ≠ i)
    (hj : (s.producers j).holds ≠ none) :
    t.queue.data (slotOf logCapacity (s.history.mark j))
      = s.queue.data (slotOf logCapacity (s.history.mark j)) := by
  rcases m.data (slotOf logCapacity (s.history.mark j)) with hdata | ⟨hi, hslot⟩
  · exact hdata
  · obtain ⟨⟨l, pos⟩, hi'⟩ := Option.ne_none_iff_exists'.1 hi
    obtain ⟨⟨l', pos'⟩, hj'⟩ := Option.ne_none_iff_exists'.1 hj
    exact absurd hslot (h.slot_ne hji hj' hi')

/-- What is known of the producers, after a step of one. -/
theorem ProducersOk.ofProducer (h : Inv s) (m : ProducerMove s t i) (own : OwnPart s t i) :
    ProducersOk t := by
  have hp := h.producers
  constructor
  case begun =>
    intro j
    by_cases hji : j = i
    · rw [hji]
      exact own.begun
    · obtain ⟨-, -, hbegun⟩ := m.others j hji
      rw [hbegun]
      exact Nat.le_trans (hp.begun j) m.grows
  case loaded =>
    intro j l tail hj
    by_cases hji : j = i
    · rw [hji] at hj ⊢
      exact own.loaded l tail hj
    · obtain ⟨hpc, hmark, hbegun⟩ := m.others j hji
      rw [hpc] at hj
      exact (hp.loaded j l tail hj).frame hmark hbegun m.grows
  case checked =>
    intro j l tail hj
    rw [m.dequeued]
    by_cases hji : j = i
    · rw [hji] at hj ⊢
      exact own.checked l tail hj
    · obtain ⟨hpc, hmark, hbegun⟩ := m.others j hji
      rw [hpc] at hj
      obtain ⟨hloaded, hnear⟩ := hp.checked j l tail hj
      rw [hmark]
      exact ⟨hloaded.frame hmark hbegun m.grows, hnear⟩
  case held =>
    intro j l pos hj
    by_cases hji : j = i
    · rw [hji] at hj ⊢
      exact own.held l pos hj
    · obtain ⟨hpc, hmark, -⟩ := m.others j hji
      rw [hpc] at hj
      have hheld := hp.held j l pos hj
      apply hheld.frame hmark
      · rw [m.dequeued]
        exact hheld.ge
      · exact m.grows
      · exact m.claimed _ hheld.lt
      · rw [m.data_other h hji (hj ▸ Option.some_ne_none _)]
        exact hheld.unready
  case apart =>
    intro j k hjk hj hk
    by_cases hji : j = i
    · have hki : k ≠ i := fun hki => hjk (hji.trans hki.symm)
      obtain ⟨hpc, hmark, -⟩ := m.others k hki
      rw [hpc] at hk
      rw [hji] at hj ⊢
      rw [hmark]
      exact (own.apart hj k hki hk).symm
    · obtain ⟨hpc, hmark, -⟩ := m.others j hji
      rw [hpc] at hj
      rw [hmark]
      by_cases hki : k = i
      · rw [hki] at hk ⊢
        exact own.apart hk j hji hj
      · obtain ⟨hpc', hmark', -⟩ := m.others k hki
        rw [hpc'] at hk
        rw [hmark']
        exact hp.apart j k hjk hj hk
  case copied =>
    intro j l pos hj
    by_cases hji : j = i
    · rw [hji] at hj ⊢
      exact own.copied l pos hj
    · obtain ⟨hpc, hmark, -⟩ := m.others j hji
      rw [hpc] at hj
      have hholds : (s.producers j).holds ≠ none := by
        rw [hj]
        exact Option.some_ne_none _
      rw [hmark, m.data_other h hji hholds]
      exact hp.copied j l pos hj

/-- What is known of the slots, after a step of a producer. -/
theorem RingOk.ofProducer (h : Inv s) (m : ProducerMove s t i) (own : OwnPart s t i) : RingOk t := by
  constructor
  case kept =>
    intro p hge hlt
    rw [m.dequeued] at hge ⊢
    rw [m.consumer]
    by_cases hnew : p < s.history.claimed.length
    · rcases h.ring.kept p hge hnew with hp | ⟨j, hj⟩ | hlast
      · exact Or.inl (m.inSlot h hnew hp)
      · by_cases hji : j = i
        · rw [hji] at hj
          rcases own.done p hj with hw | hp
          · exact Or.inr (Or.inl ⟨i, hw⟩)
          · exact Or.inl hp
        · exact Or.inr (Or.inl ⟨j, (m.writes hji p).2 hj⟩)
      · exact Or.inr (Or.inr hlast)
    · exact Or.inr (Or.inl ⟨i, own.fresh p (not_lt.1 hnew) hlt⟩)
  case ready =>
    intro x hx
    rw [m.dequeued]
    rcases m.data x with hdata | ⟨hi, rfl⟩
    · rw [hdata] at hx
      obtain ⟨p, hslot, hge, hlt, hp⟩ := h.ring.ready x hx
      exact ⟨p, hslot, hge, lt_of_lt_of_le hlt m.grows, m.inSlot h hlt hp⟩
    · obtain ⟨⟨l, pos⟩, hi'⟩ := Option.ne_none_iff_exists'.1 hi
      have hheld := h.producers.held i l pos hi'
      exact ⟨s.history.mark i, rfl, hheld.ge, lt_of_lt_of_le hheld.lt m.grows,
        own.ready _ ⟨hi, rfl⟩ hx⟩

/-- The rule for the steps of a producer. -/
theorem Inv.ofProducer (h : Inv s) (m : ProducerMove s t i) (own : OwnPart s t i) : Inv t := by
  constructor
  case head => rw [m.head, m.dequeued, h.head]
  case tail => exact own.tail
  case le =>
    rw [m.dequeued]
    exact Nat.le_trans h.le m.grows
  case room =>
    rw [m.dequeued]
    exact own.room
  case order =>
    rw [m.dequeued, h.order]
    congr 1
    apply List.ext_getElem?
    intro p
    rw [List.getElem?_take, List.getElem?_take]
    split
    case isTrue hp => exact (m.claimed p (lt_of_lt_of_le hp h.le)).symm
    case isFalse => rfl
  case ring => exact RingOk.ofProducer h m own
  case producers => exact ProducersOk.ofProducer h m own
  case consumer =>
    apply h.consumer.frame m.consumer m.dequeued m.grows m.claimed
    · exact fun hlt hp => m.inSlot h hlt hp
    · intro hlt hready hno
      constructor
      · rcases m.data (slotOf logCapacity s.history.dequeued.length) with hdata | ⟨hi, hslot⟩
        · rw [hdata]
          exact hready
        · -- The slot being cleared is nobody's, so it is not this producer's.
          obtain ⟨⟨l, pos⟩, hi'⟩ := Option.ne_none_iff_exists'.1 hi
          have hheld := h.producers.held i l pos hi'
          have hroom := h.room
          have hge := hheld.ge
          have hlt' := hheld.lt
          have hmark := slot_inj hslot (by omega) (by omega)
          exact absurd ⟨hi, hmark.symm⟩ (hno i)
      · intro j hj
        by_cases hji : j = i
        · rw [hji] at hj
          exact hno i (own.old _ hlt hj)
        · exact hno j ((m.writes hji _).1 hj)

end Frame

/-! ## The steps -/

section Steps

variable [DecidableEq ι] {s t : State ι} {i : ι}

/-- A step before the claim: only the producer's variables and what the callers see change. -/
theorem Inv.ofUnclaimed (h : Inv s) {pc : ProducerPc}
    (hproducers : t.producers = Function.update s.producers i pc) (hqueue : t.queue = s.queue)
    (hconsumer : t.consumer = s.consumer) (hclaimed : t.history.claimed = s.history.claimed)
    (hdequeued : t.history.dequeued = s.history.dequeued)
    (hothers : ∀ j, j ≠ i → t.history.mark j = s.history.mark j ∧
      t.history.begun j = s.history.begun j)
    (hbegun : t.history.begun i ≤ s.history.claimed.length)
    (hold : (s.producers i).holds = none) (hnew : pc.holds = none)
    (hloaded : ∀ l tail, pc = .readHead l tail → Loaded t i tail)
    (hchecked : ∀ l tail, pc = .checked l tail →
      Loaded t i tail ∧ t.history.mark i < s.history.dequeued.length + 128) : Inv t := by
  have hself : t.producers i = pc := by rw [hproducers, Function.update_self]
  have hnone : (t.producers i).holds = none := by rw [hself, hnew]
  have m : ProducerMove s t i := by
    constructor
    case others =>
      intro j hj
      refine ⟨?_, hothers j hj⟩
      rw [hproducers, Function.update_of_ne hj]
    case head => rw [hqueue]
    case consumer => exact hconsumer
    case dequeued => exact hdequeued
    case grows => rw [hclaimed]
    case claimed =>
      intro p _
      rw [hclaimed]
    case data =>
      intro x
      exact Or.inl (by rw [hqueue])
  apply h.ofProducer m
  constructor
  case tail => rw [hqueue, hclaimed, h.tail]
  case room =>
    rw [hclaimed]
    exact h.room
  case begun =>
    rw [hclaimed]
    exact hbegun
  case loaded =>
    intro l tail hl
    exact hloaded l tail (hself.symm.trans hl)
  case checked =>
    intro l tail hl
    exact hchecked l tail (hself.symm.trans hl)
  case held =>
    intro l pos hl
    rw [hnone] at hl
    cases hl
  case copied =>
    intro l pos hl
    rw [hl] at hnone
    cases hnone
  case apart => exact fun hi => absurd hnone hi
  case fresh =>
    intro p hge hlt
    rw [hclaimed] at hlt
    omega
  case done => exact fun p hw => absurd hold hw.1
  case ready => exact fun p hw => absurd hold hw.1
  case old => exact fun p _ hw => absurd hnone hw.1

/-- A thread enters `enqueue_log`. -/
theorem Inv.begin (h : Inv s) (l : LogEntry) (hpc : s.producers i = .idle) : Inv (s.begin i l) := by
  apply h.ofUnclaimed (t := s.begin i l) (i := i) rfl rfl rfl rfl rfl
  · intro j hj
    exact ⟨rfl, Function.update_of_ne hj ..⟩
  · exact Nat.le_of_eq (Function.update_self ..)
  · rw [hpc]
    rfl
  · rfl
  · nofun
  · nofun

/-- It loads `tail_id`. -/
theorem Inv.loadTail (h : Inv s) {l : LogEntry} (hpc : s.producers i = .readTail l) :
    Inv (s.loadTail i l) := by
  have hmark : (s.loadTail i l).history.mark i = s.history.claimed.length := Function.update_self ..
  apply h.ofUnclaimed (t := s.loadTail i l) (i := i) rfl rfl rfl rfl rfl
  · intro j hj
    exact ⟨Function.update_of_ne hj .., rfl⟩
  · exact h.producers.begun i
  · rw [hpc]
    rfl
  · rfl
  · intro l' tail hl
    injection hl with _ htail
    constructor
    · rw [hmark, ← htail, h.tail]
    · rw [hmark]
      exact h.producers.begun i
    · exact Nat.le_of_eq hmark
  · nofun

/-- A step that changes the place of the producer only. -/
theorem Inv.goTo (h : Inv s) {pc : ProducerPc} (hproducers : t.producers = Function.update s.producers i pc)
    (hqueue : t.queue = s.queue) (hconsumer : t.consumer = s.consumer)
    (hhistory : t.history = { s.history with dropped := t.history.dropped })
    (hold : (s.producers i).holds = none) (hnew : pc.holds = none)
    (hloaded : ∀ l tail, pc ≠ .readHead l tail)
    (hchecked : ∀ l tail, pc = .checked l tail →
      Loaded s i tail ∧ s.history.mark i < s.history.dequeued.length + 128) : Inv t := by
  have hmark : t.history.mark = s.history.mark := by rw [hhistory]
  have hbegun : t.history.begun = s.history.begun := by rw [hhistory]
  have hclaimed : t.history.claimed = s.history.claimed := by rw [hhistory]
  apply h.ofUnclaimed hproducers hqueue hconsumer hclaimed
  · rw [hhistory]
  · intro j _
    rw [hmark, hbegun]
    exact ⟨rfl, rfl⟩
  · rw [hbegun]
    exact h.producers.begun i
  · exact hold
  · exact hnew
  · exact fun l tail heq => absurd heq (hloaded l tail)
  · intro l tail heq
    obtain ⟨hloaded, hnear⟩ := hchecked l tail heq
    rw [hmark]
    refine ⟨hloaded.frame (congrFun hmark i) (congrFun hbegun i) ?_, hnear⟩
    rw [hclaimed]

/-- It loads `head_id`, and goes on if the queue has room. -/
theorem Inv.loadHead (h : Inv s) {l : LogEntry} {tail : Nat} (hpc : s.producers i = .readHead l tail)
    (hfew : s.history.claimed.length < s.history.begun i + 2 ^ 31) : Inv (s.loadHead i l tail) := by
  have hold : (s.producers i).holds = none := by
    rw [hpc]
    rfl
  obtain ⟨htail, hbegun, hmark⟩ := h.producers.loaded i l tail hpc
  rw [State.loadHead]
  split
  case isTrue => exact h.goTo rfl rfl rfl rfl hold rfl nofun nofun
  case isFalse hroom =>
    apply h.goTo (t := s.setProducer i (.checked l tail)) rfl rfl rfl rfl hold rfl nofun
    intro l' tail' heq
    injection heq with _ heq
    rw [← heq]
    -- The head is less than half of the counter's range ahead of the tail that was read.
    have hle := h.le
    have hnear := h.room
    rw [htail, h.head, not_le] at hroom
    have hpass := (sub32_lt_iff (by omega) (by omega)).1 hroom
    exact ⟨⟨htail, hbegun, hmark⟩, hpass.2⟩

/-- The compare-exchange that finds another value. -/
theorem Inv.claimLost (h : Inv s) {l : LogEntry} {tail : Nat} (hpc : s.producers i = .checked l tail) :
    Inv (s.setProducer i (.readTail l)) := by
  apply h.goTo (t := s.setProducer i (.readTail l)) rfl rfl rfl rfl
  · rw [hpc]
    rfl
  · rfl
  · nofun
  · nofun

/-- The compare-exchange that takes the position `claimed.length`. -/
theorem Inv.claimWon (h : Inv s) {l : LogEntry} {tail : Nat} (hpc : s.producers i = .checked l tail)
    (htail : s.queue.tailId = tail) (hroom : s.history.claimed.length < s.history.dequeued.length + 128)
    (ht : t = { s.setProducer i (.claimed l tail) with
      queue := { s.queue with tailId := wrap32 (tail + 1) }
      history := { s.history with
        claimed := s.history.claimed ++ [l]
        mark := Function.update s.history.mark i s.history.claimed.length } }) : Inv t := by
  have hself : t.producers i = .claimed l tail := by
    rw [ht]
    exact Function.update_self ..
  have hmark : t.history.mark i = s.history.claimed.length := by
    rw [ht]
    exact Function.update_self ..
  have hold : (s.producers i).holds = none := by
    rw [hpc]
    rfl
  have hdata : t.queue.data = s.queue.data := by rw [ht]
  have hdequeued : t.history.dequeued = s.history.dequeued := by rw [ht]
  have hclaimed : t.history.claimed = s.history.claimed ++ [l] := by rw [ht]
  have hlen : t.history.claimed.length = s.history.claimed.length + 1 := by
    rw [hclaimed, List.length_append, List.length_singleton]
  have m : ProducerMove s t i := by
    constructor
    case others =>
      intro j hj
      rw [ht]
      exact ⟨Function.update_of_ne hj .., Function.update_of_ne hj .., rfl⟩
    case head => rw [ht]
    case consumer =>
      rw [ht]
      rfl
    case dequeued => exact hdequeued
    case grows => omega
    case claimed =>
      intro p hp
      rw [hclaimed]
      exact List.getElem?_append_left hp
    case data =>
      intro x
      exact Or.inl (by rw [hdata])
  apply h.ofProducer m
  constructor
  case tail => rw [hlen, ← wrap32_succ, ← h.tail, htail, ht]
  case room =>
    rw [hlen]
    exact hroom
  case begun =>
    have hbegun : t.history.begun = s.history.begun := by rw [ht]
    rw [hbegun, hlen]
    exact Nat.le_succ_of_le (h.producers.begun i)
  case loaded =>
    intro l' tail' hl
    rw [hself] at hl
    cases hl
  case checked =>
    intro l' tail' hl
    rw [hself] at hl
    cases hl
  case held =>
    intro l' pos hl
    rw [hself] at hl
    cases hl
    constructor
    · rw [hmark, ← h.tail, htail]
    · rw [hmark, hdequeued]
      exact h.le
    · rw [hmark, hlen]
      exact Nat.lt_succ_self _
    · rw [hmark, hclaimed]
      exact List.getElem?_concat_length
    · rw [hmark, hdata]
      exact h.next_unready hroom
  case copied =>
    intro l' pos hl
    rw [hself] at hl
    cases hl
  case apart =>
    intro _ j _ hj
    obtain ⟨⟨l', pos⟩, hj'⟩ := Option.ne_none_iff_exists'.1 hj
    have hlt := (h.producers.held j l' pos hj').lt
    rw [hmark]
    exact Nat.ne_of_lt hlt
  case fresh =>
    intro p hge hlt
    rw [Writes, hself, hmark]
    exact ⟨Option.some_ne_none _, by omega⟩
  case done => exact fun p hw => absurd hold hw.1
  case ready => exact fun p hw => absurd hold hw.1
  case old =>
    intro p hp hw
    have hmark' := hw.2
    omega

/-- It claims its position, or starts over. -/
theorem Inv.claim (h : Inv s) {l : LogEntry} {tail : Nat} (hpc : s.producers i = .checked l tail)
    (hfew : s.history.claimed.length < s.history.begun i + 2 ^ 31) : Inv (s.claim i l tail) := by
  obtain ⟨⟨hmark, hbegun, hle⟩, hnear⟩ := h.producers.checked i l tail hpc
  rw [State.claim]
  split
  case isTrue htail =>
    -- Fewer than `2 ^ 32` claims, so an equal counter says that there was none.
    have heq : s.history.mark i = s.history.claimed.length := by
      apply wrap32_inj
      · rw [← hmark, ← htail, h.tail]
      · exact hle
      · omega
    apply h.claimWon hpc htail
    · omega
    · rfl
  case isFalse => exact h.claimLost hpc

/-- A step of a producer that holds a position: it writes its own slot only, and leaves the
message there, with `ready` set exactly when it is done. -/
theorem Inv.ofHolder (h : Inv s) {l : LogEntry} {pos : Nat} {pc : ProducerPc}
    (hholds : (s.producers i).holds = some (l, pos))
    (hproducers : t.producers = Function.update s.producers i pc)
    (hhead : t.queue.headId = s.queue.headId) (htail : t.queue.tailId = s.queue.tailId)
    (hconsumer : t.consumer = s.consumer) (hhistory : t.history = s.history)
    (hdata : ∀ x, x ≠ slotOf logCapacity (s.history.mark i) → t.queue.data x = s.queue.data x)
    (hpayload : (t.queue.data (slotOf logCapacity (s.history.mark i))).payload = l.payload)
    (hdone : (t.queue.data (slotOf logCapacity (s.history.mark i))).ready = false ∧ pc = .copied l pos ∨
      (t.queue.data (slotOf logCapacity (s.history.mark i))).ready = true ∧ pc = .idle) : Inv t := by
  have hheld := h.producers.held i l pos hholds
  have hself : t.producers i = pc := by rw [hproducers, Function.update_self]
  have hwrote : ∀ p, s.history.mark i = p → Writes s i p := by
    intro p hp
    exact ⟨hholds ▸ Option.some_ne_none _, hp⟩
  have hmine : (t.queue.data (slotOf logCapacity (s.history.mark i))).ready = true →
      InSlot t (s.history.mark i) := by
    intro hready
    refine ⟨hready, ?_⟩
    rw [hhistory, hheld.own, hpayload]
    rfl
  have m : ProducerMove s t i := by
    constructor
    case others =>
      intro j hj
      rw [hproducers, hhistory]
      exact ⟨Function.update_of_ne hj .., rfl, rfl⟩
    case head => exact hhead
    case consumer => exact hconsumer
    case dequeued => rw [hhistory]
    case grows => rw [hhistory]
    case claimed =>
      intro p _
      rw [hhistory]
    case data =>
      intro x
      by_cases hx : x = slotOf logCapacity (s.history.mark i)
      · exact Or.inr ⟨(hwrote _ rfl).1, hx⟩
      · exact Or.inl (hdata x hx)
  apply h.ofProducer m
  constructor
  case tail => rw [htail, hhistory, h.tail]
  case room =>
    rw [hhistory]
    exact h.room
  case begun =>
    rw [hhistory]
    exact h.producers.begun i
  case loaded =>
    intro l' tail' hl
    rw [hself] at hl
    rcases hdone with ⟨-, rfl⟩ | ⟨-, rfl⟩
    · cases hl
    · cases hl
  case checked =>
    intro l' tail' hl
    rw [hself] at hl
    rcases hdone with ⟨-, rfl⟩ | ⟨-, rfl⟩
    · cases hl
    · cases hl
  case held =>
    intro l' pos' hl
    rw [hself] at hl
    rcases hdone with ⟨hready, rfl⟩ | ⟨-, rfl⟩
    · cases hl
      apply hheld.frame
      · rw [hhistory]
      · rw [hhistory]
        exact hheld.ge
      · rw [hhistory]
      · rw [hhistory]
      · exact hready
    · cases hl
  case copied =>
    intro l' pos' hl
    rw [hself] at hl
    rcases hdone with ⟨-, rfl⟩ | ⟨-, rfl⟩
    · cases hl
      rw [hhistory]
      exact hpayload
    · cases hl
  case apart =>
    intro _ j hji hj
    rw [hhistory]
    exact h.producers.apart j i hji hj (hwrote _ rfl).1
  case fresh =>
    intro p hge hlt
    rw [hhistory] at hlt
    omega
  case done =>
    rintro p ⟨-, rfl⟩
    rcases hdone with ⟨-, hpc⟩ | ⟨hready, -⟩
    · refine Or.inl ⟨?_, ?_⟩
      · rw [hself, hpc]
        exact Option.some_ne_none _
      · rw [hhistory]
    · exact Or.inr (hmine hready)
  case ready =>
    rintro p ⟨-, rfl⟩ hready
    exact hmine hready
  case old =>
    rintro p - ⟨-, hp⟩
    rw [hhistory] at hp
    exact hwrote p hp

/-- It copies its message. -/
theorem Inv.fill (h : Inv s) {l : LogEntry} {pos : Nat} (hpc : s.producers i = .claimed l pos) :
    Inv (s.fill i l pos) := by
  have hholds : (s.producers i).holds = some (l, pos) := by
    rw [hpc]
    rfl
  have hheld := h.producers.held i l pos hholds
  have hslot : (s.fill i l pos).queue.data (slotOf logCapacity (s.history.mark i))
      = logCopy (s.queue.slot pos) l := by
    rw [← hheld.slot_pos]
    exact Function.update_self ..
  apply h.ofHolder (t := s.fill i l pos) hholds rfl rfl rfl rfl rfl
  · intro x hx
    rw [← hheld.slot_pos] at hx
    exact Function.update_of_ne hx ..
  · rw [hslot]
    exact logCopy_payload ..
  · refine Or.inl ⟨?_, rfl⟩
    rw [hslot]
    change (s.queue.data (slotOf logCapacity pos)).ready = false
    rw [hheld.slot_pos]
    exact hheld.unready

/-- It sets `ready`. -/
theorem Inv.publish (h : Inv s) {l : LogEntry} {pos : Nat} (hpc : s.producers i = .copied l pos) :
    Inv (s.publish i pos) := by
  have hholds : (s.producers i).holds = some (l, pos) := by
    rw [hpc]
    rfl
  have hheld := h.producers.held i l pos hholds
  have hslot : (s.publish i pos).queue.data (slotOf logCapacity (s.history.mark i))
      = { s.queue.data (slotOf logCapacity (s.history.mark i)) with ready := true } := by
    rw [← hheld.slot_pos]
    exact Function.update_self ..
  apply h.ofHolder (t := s.publish i pos) hholds rfl rfl rfl rfl rfl
  · intro x hx
    rw [← hheld.slot_pos] at hx
    exact Function.update_of_ne hx ..
  · rw [hslot, ← h.producers.copied i l pos hpc]
    rfl
  · refine Or.inr ⟨?_, rfl⟩
    rw [hslot]

/-- A step inside `enqueue_log` keeps the invariant. -/
theorem Inv.producerStep (h : Inv s) (hfew : FewClaims s (.produce i))
    (hst : producerStep s i = some t) : Inv t := by
  rw [TinyServer.Logger.producerStep] at hst
  rw [FewClaims] at hfew
  cases hpc : s.producers i with
  | idle =>
      rw [hpc] at hst
      cases hst
  | readTail l =>
      rw [hpc] at hst
      cases hst
      exact h.loadTail hpc
  | readHead l tail =>
      rw [hpc] at hst hfew
      cases hst
      exact h.loadHead hpc hfew
  | checked l tail =>
      rw [hpc] at hst hfew
      cases hst
      exact h.claim hpc hfew
  | claimed l pos =>
      rw [hpc] at hst
      cases hst
      exact h.fill hpc
  | copied l pos =>
      rw [hpc] at hst
      cases hst
      exact h.publish hpc

end Steps

end TinyServer.Logger
