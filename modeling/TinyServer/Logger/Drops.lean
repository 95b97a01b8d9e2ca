import TinyServer.Logger.Delivery

/-!
# When a message is dropped

`enqueue_log` judges the queue by a tail that it read before the head. If the consumer has
passed that tail in between, the difference wraps and the message is dropped, however few
entries the queue holds (`stale_drop`). While no consumer passes a tail between the two loads,
a message is dropped only when the queue was full during the call (`drops_full`).
-/

set_option autoImplicit false

namespace TinyServer.Logger

open TinyServer.Lib

variable {ι : Type}

/-- Every dropped message found the queue full at some moment of its call. -/
def Justified (s : State ι) : Prop := ∀ d ∈ s.history.dropped, d.2 = true

/-- At the load of `head_id`, the head is not past the tail that the call has read. -/
def NotPassed (s : State ι) : Action ι → Prop
  | .produce i =>
      match s.producers i with
      | .readHead _ _ => s.history.dequeued.length ≤ s.history.mark i
      | _ => True
  | _ => True

/-- The head that the consumer works with. -/
def ConsumerPc.head : ConsumerPc → Option Nat
  | .idle => none
  | .readTail head => some head
  | .waiting head => some head
  | .sawReady head => some head
  | .copied head => some head
  | .cleared head => some head

/-- The counters count. -/
structure Counted (s : State ι) : Prop where
  head : s.queue.headId = wrap32 s.history.dequeued.length
  tail : s.queue.tailId = wrap32 s.history.claimed.length
  consumer : ∀ head, s.consumer.pc.head = some head → head = wrap32 s.history.dequeued.length
  loaded : ∀ i l tail, s.producers i = .readHead l tail →
    tail = wrap32 (s.history.mark i) ∧ s.history.mark i ≤ s.history.claimed.length

/-- A call in progress has noticed a full queue. -/
def Noticed (s : State ι) : Prop :=
  ∀ i, (s.producers i).isIdle = false → s.isFull = true → s.history.sawFull i = true

/-- The history has the length of the queue after each step. -/
theorem noticed_observe (s : State ι) : Noticed s.observe := by
  intro i hidle hfull
  change (!(s.producers i).isIdle && (s.history.sawFull i || s.isFull)) = true
  change (s.producers i).isIdle = false at hidle
  change s.isFull = true at hfull
  rw [hidle, hfull, Bool.or_true]
  rfl

/-- A head that is not ahead of the tail refuses only at a distance of the ring or more. -/
theorem full_of_refused {head tail : Nat} (hle : head ≤ tail)
    (h : LOG_QUEUE_SIZE ≤ sub32 (wrap32 tail) (wrap32 head)) : head + 128 ≤ tail := by
  rw [LOG_QUEUE_SIZE, sub32, wrap32, wrap32] at h
  omega

section Steps

variable [DecidableEq ι] {s t : State ι} {i : ι}

/-- The rule for the steps of a producer. -/
theorem Counted.producers (h : Counted s) (pc : ProducerPc)
    (hproducers : t.producers = Function.update s.producers i pc)
    (hhead : t.queue.headId = s.queue.headId)
    (htail : t.queue.tailId = wrap32 t.history.claimed.length)
    (hconsumer : t.consumer = s.consumer) (hdequeued : t.history.dequeued = s.history.dequeued)
    (hgrows : s.history.claimed.length ≤ t.history.claimed.length)
    (hmark : ∀ j, j ≠ i → t.history.mark j = s.history.mark j)
    (hloaded : ∀ l tail, pc = .readHead l tail →
      tail = wrap32 (t.history.mark i) ∧ t.history.mark i ≤ t.history.claimed.length) : Counted t := by
  refine ⟨?_, htail, ?_, ?_⟩
  · rw [hhead, hdequeued, h.head]
  · intro head hpc
    rw [hconsumer] at hpc
    rw [hdequeued]
    exact h.consumer head hpc
  · intro j l tail hj
    rw [hproducers] at hj
    by_cases hji : j = i
    · rw [hji, Function.update_self] at hj
      rw [hji]
      exact hloaded l tail hj
    · rw [Function.update_of_ne hji] at hj
      obtain ⟨heq, hle⟩ := h.loaded j l tail hj
      rw [hmark j hji]
      exact ⟨heq, Nat.le_trans hle hgrows⟩

/-- A step inside `enqueue_log` keeps the counts. -/
theorem Counted.producerStep (h : Counted s) (hst : producerStep s i = some t) : Counted t := by
  rw [TinyServer.Logger.producerStep] at hst
  cases hpc : s.producers i with
  | idle =>
      rw [hpc] at hst
      cases hst
  | readTail l =>
      rw [hpc] at hst
      cases hst
      apply h.producers (t := s.loadTail i l) _ rfl rfl h.tail rfl rfl (Nat.le_refl _)
      · exact fun j hj => Function.update_of_ne hj ..
      · intro l' tail hl
        injection hl with _ heq
        have hmark : (s.loadTail i l).history.mark i = s.history.claimed.length :=
          Function.update_self ..
        rw [hmark, ← heq]
        exact ⟨h.tail, Nat.le_refl _⟩
  | readHead l tail =>
      rw [hpc] at hst
      dsimp only at hst
      rw [State.loadHead] at hst
      split at hst
      case isTrue =>
        cases hst
        exact h.producers .idle rfl rfl h.tail rfl rfl (Nat.le_refl _) (fun _ _ => rfl) (by rintro _ _ ⟨⟩)
      case isFalse =>
        cases hst
        exact h.producers (.checked l tail) rfl rfl h.tail rfl rfl (Nat.le_refl _)
          (fun _ _ => rfl) (by rintro _ _ ⟨⟩)
  | checked l tail =>
      rw [hpc] at hst
      dsimp only at hst
      rw [State.claim] at hst
      split at hst
      case isTrue htail =>
        cases hst
        have hlen : (s.history.claimed ++ [l]).length = s.history.claimed.length + 1 := by
          rw [List.length_append, List.length_singleton]
        refine h.producers (i := i) (.claimed l tail) rfl rfl ?_ rfl rfl ?_ ?_ (by rintro _ _ ⟨⟩)
        · change wrap32 (tail + 1) = wrap32 (s.history.claimed ++ [l]).length
          rw [← htail, h.tail, wrap32_succ, hlen]
        · change s.history.claimed.length ≤ (s.history.claimed ++ [l]).length
          omega
        · exact fun j hj => Function.update_of_ne hj ..
      case isFalse =>
        cases hst
        exact h.producers (.readTail l) rfl rfl h.tail rfl rfl (Nat.le_refl _)
          (fun _ _ => rfl) (by rintro _ _ ⟨⟩)
  | claimed l pos =>
      rw [hpc] at hst
      cases hst
      exact h.producers (.copied l pos) rfl rfl h.tail rfl rfl (Nat.le_refl _)
        (fun _ _ => rfl) (by rintro _ _ ⟨⟩)
  | copied l pos =>
      rw [hpc] at hst
      cases hst
      exact h.producers .idle rfl rfl h.tail rfl rfl (Nat.le_refl _) (fun _ _ => rfl) (by rintro _ _ ⟨⟩)

omit [DecidableEq ι] in
/-- A step inside `dequeue_log` keeps the counts. -/
theorem Counted.consumerStep (h : Counted s) (hst : consumerStep s = some t) : Counted t := by
  rw [TinyServer.Logger.consumerStep] at hst
  have hhead := h.consumer
  cases hpc : s.consumer.pc with
  | idle =>
      rw [hpc] at hst
      cases hst
  | readTail head =>
      rw [hpc] at hst hhead
      dsimp only at hst
      split at hst
      case isTrue =>
        cases hst
        exact ⟨h.head, h.tail, by rintro _ ⟨⟩, h.loaded⟩
      case isFalse =>
        cases hst
        exact ⟨h.head, h.tail, hhead, h.loaded⟩
  | waiting head =>
      rw [hpc] at hst hhead
      dsimp only at hst
      split at hst
      case isTrue =>
        cases hst
        exact ⟨h.head, h.tail, hhead, h.loaded⟩
      case isFalse =>
        cases hst
        exact h
  | sawReady head =>
      rw [hpc] at hst hhead
      cases hst
      exact ⟨h.head, h.tail, hhead, h.loaded⟩
  | copied head =>
      rw [hpc] at hst hhead
      cases hst
      exact ⟨h.head, h.tail, hhead, h.loaded⟩
  | cleared head =>
      rw [hpc] at hst hhead
      cases hst
      refine ⟨?_, h.tail, by rintro _ ⟨⟩, h.loaded⟩
      change wrap32 (head + 1) = wrap32 (s.history.dequeued ++ [s.consumer.out]).length
      rw [hhead head rfl, wrap32_succ, List.length_append, List.length_singleton]

/-- The step lemma for the counts. -/
theorem Counted.step {a : Action ι} (h : Counted s) (hst : step s a = some t) : Counted t := by
  obtain ⟨u, hmove, rfl⟩ := Option.map_eq_some_iff.1 hst
  suffices hu : Counted u from ⟨hu.head, hu.tail, hu.consumer, hu.loaded⟩
  cases a with
  | enqueue i l =>
      rw [move] at hmove
      split at hmove
      case isTrue =>
        cases hmove
        exact h.producers (.readTail l) rfl rfl h.tail rfl rfl (Nat.le_refl _)
          (fun _ _ => rfl) (by rintro _ _ ⟨⟩)
      case isFalse => cases hmove
  | produce i => exact h.producerStep hmove
  | dequeue out =>
      rw [move] at hmove
      split at hmove
      case isTrue =>
        cases hmove
        refine ⟨h.head, h.tail, ?_, h.loaded⟩
        rintro head ⟨⟩
        exact h.head
      case isFalse => cases hmove
  | consume => exact h.consumerStep hmove

/-- A step drops at most the message of its own call, at the load of `head_id`. -/
theorem dropped_of_move {a : Action ι} (hmove : move s a = some t) :
    t.history.dropped = s.history.dropped ∨
      ∃ i l tail, a = .produce i ∧ s.producers i = .readHead l tail ∧
        LOG_QUEUE_SIZE ≤ sub32 tail s.queue.headId ∧
        t.history.dropped = s.history.dropped ++ [(l, s.history.sawFull i)] := by
  cases a with
  | enqueue i l =>
      rw [move] at hmove
      split at hmove
      · cases hmove
        exact Or.inl rfl
      · cases hmove
  | dequeue out =>
      rw [move] at hmove
      split at hmove
      · cases hmove
        exact Or.inl rfl
      · cases hmove
  | produce i =>
      rw [move, TinyServer.Logger.producerStep] at hmove
      cases hpc : s.producers i with
      | readHead l tail =>
          rw [hpc] at hmove
          dsimp only at hmove
          rw [State.loadHead] at hmove
          split at hmove
          -- The one move that drops: the head load finds the queue full.
          case isTrue hfull =>
            cases hmove
            exact Or.inr ⟨i, l, tail, rfl, hpc, hfull, rfl⟩
          case isFalse =>
            cases hmove
            exact Or.inl rfl
      -- The claim fails or not; it drops nothing.
      | checked l tail =>
          rw [hpc] at hmove
          dsimp only at hmove
          rw [State.claim] at hmove
          split at hmove
          · cases hmove
            exact Or.inl rfl
          · cases hmove
            exact Or.inl rfl
      | idle =>
          rw [hpc] at hmove
          cases hmove
      | readTail l | claimed l pos | copied l pos =>
          rw [hpc] at hmove
          cases hmove
          exact Or.inl rfl
  | consume =>
      rw [move, TinyServer.Logger.consumerStep] at hmove
      cases hpc : s.consumer.pc with
      | idle =>
          rw [hpc] at hmove
          cases hmove
      | readTail head | waiting head =>
          rw [hpc] at hmove
          dsimp only at hmove
          split at hmove
          · cases hmove
            exact Or.inl rfl
          · cases hmove
            exact Or.inl rfl
      | sawReady head | copied head | cleared head =>
          rw [hpc] at hmove
          cases hmove
          exact Or.inl rfl

/-- The step lemma: a message is dropped only where the queue was full. -/
theorem Justified.step {a : Action ι} (h : Justified s) (hcounted : Counted s) (hnoticed : Noticed s)
    (hpassed : NotPassed s a) (hst : step s a = some t) : Justified t := by
  obtain ⟨u, hmove, rfl⟩ := Option.map_eq_some_iff.1 hst
  change ∀ d ∈ u.history.dropped, d.2 = true
  rcases dropped_of_move hmove with hsame | ⟨i, l, tail, rfl, hpc, hrefused, hdropped⟩
  · rw [hsame]
    exact h
  · rw [hdropped]
    intro d hd
    rcases List.mem_append.1 hd with hold | hnew
    · exact h d hold
    · rw [List.mem_singleton.1 hnew]
      rw [NotPassed, hpc] at hpassed
      obtain ⟨htail, hmark⟩ := hcounted.loaded i l tail hpc
      rw [htail, hcounted.head] at hrefused
      have hdist := full_of_refused hpassed hrefused
      apply hnoticed i
      · rw [hpc]
        rfl
      · apply decide_eq_true
        change 128 ≤ s.history.claimed.length - s.history.dequeued.length
        omega

end Steps

/-! ## Runs -/

section Runs

variable [DecidableEq ι]

/-- A run in which the consumer passes no tail between its load and the load of the head
drops only messages that found the queue full. -/
theorem drops_full (acts : List (Action ι)) (h : AllSteps step NotPassed (start ι) acts) :
    ∀ t ∈ runStates step (start ι) acts, Justified t := by
  intro t ht
  have hstart : Justified (start ι) ∧ Counted (start ι) ∧ Noticed (start ι) :=
    ⟨nofun, ⟨rfl, rfl, nofun, nofun⟩, nofun⟩
  have hstep : ∀ (s : State ι) (a : Action ι) (s' : State ι), Justified s ∧ Counted s ∧ Noticed s →
      NotPassed s a → step s a = some s' → Justified s' ∧ Counted s' ∧ Noticed s' := by
    rintro s a s' ⟨hjust, hcounted, hnoticed⟩ hpassed hst
    refine ⟨hjust.step hcounted hnoticed hpassed hst, hcounted.step hst, ?_⟩
    obtain ⟨u, -, rfl⟩ := Option.map_eq_some_iff.1 hst
    exact noticed_observe u
  exact (AllSteps.invariant hstep hstart h t ht).1

instance NotPassed.decidable (s : State ι) : ∀ a, Decidable (NotPassed s a)
  | .enqueue _ _ => isTrue trivial
  | .dequeue _ => isTrue trivial
  | .consume => isTrue trivial
  | .produce i =>
      match hpc : s.producers i with
      | .readHead _ _ => decidable_of_iff (s.history.dequeued.length ≤ s.history.mark i) (by rw [NotPassed, hpc])
      | .idle => isTrue (by rw [NotPassed, hpc]; trivial)
      | .readTail _ => isTrue (by rw [NotPassed, hpc]; trivial)
      | .checked _ _ => isTrue (by rw [NotPassed, hpc]; trivial)
      | .claimed _ _ => isTrue (by rw [NotPassed, hpc]; trivial)
      | .copied _ _ => isTrue (by rw [NotPassed, hpc]; trivial)

/-- Two threads fill the queue in turns, and another call finds it full. -/
def fullRun : List (Action (Fin 2)) :=
  let i : Fin 2 := ⟨0, Nat.zero_lt_two⟩
  let j : Fin 2 := ⟨1, Nat.one_lt_two⟩
  let call : Fin 2 → List (Action (Fin 2)) := fun i => .enqueue i .zero :: List.replicate 5 (.produce i)
  (List.replicate 64 (call i ++ call j)).flatten ++ [.enqueue i .zero, .produce i, .produce i]

/-- The queue is full and the next call is refused. -/
theorem drops_full_refused : ∃ t ∈ runStates step (start (Fin 2)) fullRun,
    t.history.claimed.length = 128 ∧ t.history.dropped.length = 1 ∧ Justified t := by
  obtain ⟨t, ht, hclaimed, hdropped⟩ : ∃ t ∈ runStates step (start (Fin 2)) fullRun,
      t.history.claimed.length = 128 ∧ t.history.dropped.length = 1 :=
    exists_of_run (by decide +kernel)
  exact ⟨t, ht, hclaimed, hdropped, drops_full fullRun (by decide +kernel) t ht⟩

end Runs

/-- Thread 0 reads the tail; the message of thread 1 goes through the queue; thread 0 reads
the head. -/
def staleRun : List (Action (Fin 2)) :=
  let i : Fin 2 := ⟨0, Nat.zero_lt_two⟩
  let j : Fin 2 := ⟨1, Nat.one_lt_two⟩
  [.enqueue i .zero, .produce i] ++ oneMessage j ++ [.produce i]

/-- A message is dropped although the queue never held more than one. -/
theorem stale_drop : ∃ t ∈ runStates step (start (Fin 2)) staleRun,
    ¬ Justified t ∧ t.history.claimed.length = 1 := by
  obtain ⟨t, ht, hdropped, hlen⟩ : ∃ t ∈ runStates step (start (Fin 2)) staleRun,
      t.history.dropped.map Prod.snd = [false] ∧ t.history.claimed.length = 1 :=
    exists_of_run (by decide)
  refine ⟨t, ht, fun hjust => ?_, hlen⟩
  obtain ⟨d, hd, hfalse⟩ := List.mem_map.1 (hdropped ▸ List.mem_singleton_self false)
  rw [hjust d hd] at hfalse
  cases hfalse

end TinyServer.Logger
