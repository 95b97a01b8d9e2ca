import TinyServer.Logger.Output

/-!
# The shutdown of the logger

When nobody logs during `log_shutdown`, every accepted message is written and flushed before the
thread returns (`logging_shutdown`); `main` joins the workers first. The thread returns
after a bounded number of its own steps, whatever the others do, even if one of them never
finishes its call (`shutdown_returns`): a message that is accepted pays for the steps
that it costs. Both hold as long as fewer than `2 ^ 31` messages are claimed by others during
one call of `tiny_log` (`Few`).
-/

set_option autoImplicit false

namespace TinyServer.Logger.Logging

open TinyServer.Lib
open TinyServer.Queue (slotOf)

variable {ι : Type} {s t : Logging ι}

/-! ## Nothing is left behind -/

/-- Nobody is inside `tiny_log`. -/
def Quiet (s : Logging ι) : Prop := ∀ i, (s.queue.producers i).isIdle = true

/-- Nobody holds a position. -/
theorem Quiet.holds (h : s.Quiet) (i : ι) : (s.queue.producers i).holds = none := by
  have hi := h i
  cases hpc : s.queue.producers i with
  | idle => rfl
  | readTail | readHead | checked | claimed | copied =>
      rw [hpc] at hi
      cases hi

/-- A message that is waited for is there when nobody is about to publish it. -/
theorem Inv.headReady (h : s.Inv) (hquiet : s.Quiet) {head : Nat}
    (hwait : s.queue.consumer.pc = .waiting head) : s.headReady = true := by
  have hok := h.queue.consumer
  rw [ConsumerOk, hwait] at hok
  obtain ⟨hhead, hlt⟩ := hok
  rcases h.queue.ring.kept _ (Nat.le_refl _) hlt with hin | ⟨i, hi, -⟩ | ⟨-, head', hcleared⟩
  · unfold Logging.headReady
    rw [hwait]
    show (s.queue.queue.data (slotOf logCapacity head)).ready = true
    rw [hhead, slotOf_wrap32]
    exact hin.1
  · exact absurd (hquiet.holds i) hi
  · cases hwait.symm.trans hcleared

/-- A queue that `dequeue_log` finds empty. -/
theorem Inv.emptied (h : s.Inv) {head : Nat} (hread : s.queue.consumer.pc = .readTail head)
    (hempty : head = s.queue.queue.tailId) :
    s.queue.history.dequeued.length = s.queue.history.claimed.length := by
  have hok := h.queue.consumer
  rw [ConsumerOk, hread] at hok
  apply h.queue.delivered.drained
  rw [h.queue.head, ← hempty]
  exact hok.symm

variable [DecidableEq ι]

/-- What the thread leaves to the others. -/
theorem loggerStep_side (hst : s.loggerStep = some t) :
    SameSide s.queue t.queue ∧ t.joining = s.joining ∧ t.run = s.run := by
  have hsame : SameSide s.queue s.queue := ⟨rfl, rfl⟩
  unfold loggerStep at hst
  cases hthread : s.thread with
  | absent | returned =>
      rw [hthread] at hst
      cases hst
  | top | checkRun | sleeping | closing =>
      rw [hthread] at hst
      cases hst
      exact ⟨hsame, rfl, rfl⟩
  | calling last =>
      rw [hthread] at hst
      obtain ⟨u, hu, rfl⟩ := Option.map_eq_some_iff.1 hst
      obtain ⟨q, hq, rfl⟩ := onQueue_eq hu
      exact ⟨(dequeue_side hq).1, rfl, rfl⟩
  | inside last spins =>
      rw [hthread] at hst
      cases insideStep_cases hthread hst with
      | access q n hq _ ht | empty q hq _ _ ht | found q hq _ ht =>
          subst ht
          exact ⟨(consume_side hq).1, rfl, rfl⟩
      | spin _ _ _ ht | look _ _ _ ht =>
          subst ht
          exact ⟨hsame, rfl, rfl⟩
  | checkReady last =>
      rw [hthread] at hst
      cases hst
      split
      · exact ⟨hsame, rfl, rfl⟩
      · exact ⟨⟨rfl, rfl⟩, rfl, rfl⟩
  | writing last =>
      rw [hthread] at hst
      cases hst
      unfold write
      extract_lets u
      split
      · exact ⟨hsame, rfl, rfl⟩
      · exact ⟨hsame, rfl, rfl⟩
  | wrote | resting =>
      rw [hthread] at hst
      cases hst
      split
      · exact ⟨hsame, rfl, rfl⟩
      · exact ⟨hsame, rfl, rfl⟩

/-- The thread has left the second loop. -/
def ended (s : Logging ι) : Bool :=
  match s.thread with
  | .closing | .returned => true
  | _ => false

/-- It leaves the loop with the queue empty. -/
theorem Inv.loggerStep_ended (h : s.Inv) (hquiet : s.Quiet)
    (hold : s.ended = true → s.queue.history.dequeued.length = s.queue.history.claimed.length)
    (hst : s.loggerStep = some t) (hended : t.ended = true) :
    t.queue.history.dequeued.length = t.queue.history.claimed.length := by
  have hplaced := h.placed
  unfold Placed at hplaced
  unfold Logging.loggerStep at hst
  cases hthread : s.thread with
  | absent | returned =>
      rw [hthread] at hst
      cases hst
  | top =>
      rw [hthread] at hst
      cases hst
      cases hended
  | sleeping =>
      rw [hthread] at hst
      cases hst
      cases hended
  | calling last =>
      rw [hthread] at hst
      obtain ⟨u, hu, rfl⟩ := Option.map_eq_some_iff.1 hst
      cases hended
  | inside last spins =>
      rw [hthread] at hst
      cases insideStep_cases hthread hst with
      | access q n hq hpc ht =>
          subst ht
          cases hended
      -- Only a call that finds the queue empty ends the loop.
      | empty q hq hpc hread ht =>
          subst ht
          obtain ⟨head, hread⟩ := hread
          cases (consume_side hq).2 with
          | empty head' hread' hempty _ hdequeued =>
              rw [hdequeued, (consume_side hq).1.claimed]
              exact h.emptied hread' hempty
          | going hnext => exact absurd hpc hnext.ne.1
          | taken head' hcleared => cases hread.symm.trans hcleared
      | found q hq hpc ht =>
          subst ht
          cases hended
      | spin hpc hready hspins ht =>
          subst ht
          cases hended
      | look hpc hready hspins ht =>
          subst ht
          cases hended
  | checkRun last =>
      rw [hthread] at hst
      cases hst
      split at hended
      · cases hended
      · cases hended
  | checkReady last =>
      rw [hthread] at hst hplaced
      obtain ⟨head, hwait⟩ := hplaced
      cases hst
      -- It does not give up: the message is there.
      rw [if_pos (h.headReady hquiet hwait)] at hended
      cases hended
  | writing last =>
      rw [hthread] at hst
      cases hst
      unfold Logging.write at hended
      split at hended
      · cases hended
      · cases hended
  | wrote =>
      rw [hthread] at hst
      cases hst
      cases hended
  | resting =>
      rw [hthread] at hst
      cases hst
      cases hended
  | closing =>
      rw [hthread] at hst
      -- The end was reached before.
      cases hst
      exact hold (by unfold ended; rw [hthread])

/-- Nobody is inside `tiny_log` when `log_shutdown` is called, and nobody calls it until
`log_shutdown` returns. -/
def CalmShutdown (s : Logging ι) : LoggingAction ι → Prop
  | .shutdown => s.Quiet
  | .log _ _ _ => s.joining = false
  | _ => True

/-- What holds up to a shutdown during which nobody logs: the queue is empty when the thread has
left its second loop. -/
structure Settled (s : Logging ι) : Prop where
  inv : s.Inv
  quiet : s.joining = true → s.Quiet
  emptied : s.ended = true → s.queue.history.dequeued.length = s.queue.history.claimed.length

omit [DecidableEq ι] in
/-- Before the shutdown the thread is not at its end. -/
theorem Inv.not_ended (h : s.Inv) (hjoining : s.joining ≠ true) : s.ended ≠ true := by
  intro hended
  apply hjoining
  apply h.controlled.ending
  unfold ended at hended
  cases hthread : s.thread with
  | closing | returned => rfl
  | _ =>
      rw [hthread] at hended
      cases hended

omit [DecidableEq ι] in
/-- A step of another thread, outside the shutdown. -/
theorem Settled.outside (h : s.Settled) (hinv : t.Inv) (hthread : t.thread = s.thread)
    (hjoining : t.joining = s.joining) (hno : s.joining ≠ true) : t.Settled := by
  have hended : t.ended = s.ended := by
    unfold ended
    rw [hthread]
  refine ⟨hinv, fun hj => absurd (hjoining.symm.trans hj) hno, fun he => ?_⟩
  exact absurd (hended.symm.trans he) (h.inv.not_ended hno)

/-- The step lemma. -/
theorem Settled.step (h : s.Settled) {a : LoggingAction ι} (hfew : Few s a) (hcalm : CalmShutdown s a)
    (hst : s.step a = some t) : t.Settled := by
  have hinv : t.Inv := h.inv.step hfew hst
  cases a with
  | init created =>
      obtain ⟨⟨habsent, hjoining⟩, ht⟩ := Option.ite_none_right_eq_some.1 hst
      -- `log_init`: the new thread is at its top, or there is none.
      cases ht
      refine ⟨hinv, fun hj => ?_, fun he => ?_⟩
      · cases hjoining.symm.trans hj
      · cases created with
        | false => cases he
        | true => cases he
  | shutdown =>
      obtain ⟨hno, hst⟩ := Option.ite_none_left_eq_some.1 hst
      split at hst
      · cases hst
        exact ⟨hinv, fun _ => hcalm, fun he => absurd he (h.inv.not_ended hno)⟩
      · cases hst
        exact h
  | join =>
      obtain ⟨⟨-, hreturned⟩, ht⟩ := Option.ite_none_right_eq_some.1 hst
      cases ht
      refine ⟨hinv, fun hj => ?_, fun he => ?_⟩
      · cases hj
      · cases he
  -- No message is logged during a calm shutdown.
  | log i level text =>
      have hno : s.joining ≠ true := by
        rw [show s.joining = false from hcalm]
        rintro ⟨⟩
      unfold Logging.step at hst
      cases hl : tinyLogEntry level text with
      | none =>
          simp only [hl] at hst
          cases hst
          exact h
      | some l =>
          simp only [hl] at hst
          obtain ⟨q, hq, rfl⟩ := onQueue_eq hst
          exact h.outside hinv rfl rfl hno
  | produce i =>
      obtain ⟨q, hq, rfl⟩ := onQueue_eq (a := .produce i) hst
      apply h.outside hinv rfl rfl
      intro hj
      -- Nobody is inside a call.
      have hi := h.quiet hj i
      obtain ⟨u, hmove, -⟩ := Option.map_eq_some_iff.1 hq
      rw [move, producerStep] at hmove
      cases hpc : s.queue.producers i with
      | idle =>
          rw [hpc] at hmove
          cases hmove
      | readTail | readHead | checked | claimed | copied =>
          rw [hpc] at hi
          cases hi
  -- The thread: what it ends with was dequeued in full.
  | logger =>
      obtain ⟨hside, hjoining, -⟩ := loggerStep_side hst
      refine ⟨hinv, fun hj i => ?_, fun he => ?_⟩
      · rw [hside.producers]
        exact h.quiet (hjoining.symm.trans hj) i
      · have hj : t.joining = true := by
          by_contra hno
          exact hinv.not_ended hno he
        exact h.inv.loggerStep_ended (h.quiet (hjoining.symm.trans hj)) h.emptied hst he

/-- In a run in which no call is passed by `2 ^ 31` claims and nobody logs during `log_shutdown`,
every message that was accepted is written and flushed when the thread returns. -/
theorem logging_shutdown (acts : List (LoggingAction ι))
    (h : AllSteps step (fun s a => Few s a ∧ CalmShutdown s a) (start ι) acts) :
    ∀ t ∈ runStates step (start ι) acts, t.thread = .returned →
      t.flushed = texts t.queue.history.claimed := by
  intro t ht hreturned
  have hstart : (start ι).Settled := by
    refine ⟨start_inv ι, fun hj => ?_, fun he => ?_⟩
    · cases hj
    · cases he
  have hsettled : t.Settled :=
    AllSteps.invariant (fun s a s' hs hgood hst => hs.step hgood.1 hgood.2 hst) hstart h t ht
  have horderly := hsettled.inv.orderly
  have hall : t.taken.length = t.queue.history.claimed.length := by
    rw [taken_eq (by rw [hreturned]; rfl)]
    exact hsettled.emptied (by unfold ended; rw [hreturned])
  rw [horderly.flushing (by rw [hreturned]; rfl), horderly.written, hall, List.take_length]

instance CalmShutdown.decidable {n : Nat} (s : Logging (Fin n)) : ∀ a, Decidable (CalmShutdown s a)
  | .init _ => isTrue trivial
  | .shutdown => inferInstanceAs (Decidable (∀ i, (s.queue.producers i).isIdle = true))
  | .join => isTrue trivial
  | .log _ _ _ => inferInstanceAs (Decidable (s.joining = false))
  | .produce _ => isTrue trivial
  | .logger => isTrue trivial

/-- Two threads log at the same time, and their messages are still in the queue when the logger is
stopped. -/
def stoppedRun : List (LoggingAction (Fin 2)) := twoLogs ++ .shutdown :: List.replicate 17 .logger

/-- Two messages are written and flushed. -/
theorem logging_shutdown_twoLogs : ∃ t ∈ runStates step (start (Fin 2)) stoppedRun,
    t.flushed = [111, 104, 105] ∧ t.flushed = texts t.queue.history.claimed := by
  obtain ⟨t, ht, hreturned, hflushed⟩ := exists_of_run
    (p := fun t : Logging (Fin 2) => t.thread = .returned ∧ t.flushed = [111, 104, 105])
    (show (runTo step (start (Fin 2)) stoppedRun).any _ = true by decide +kernel)
  exact ⟨t, ht, hflushed, logging_shutdown stoppedRun (by decide +kernel) t ht hreturned⟩

/-! ## The thread returns -/

/-- More than the steps that a call of `dequeue_log` takes from the access on, if it gets no
message. -/
def callLeft (ready : Bool) (spins : Nat) : ConsumerPc → Nat
  | .idle => 0
  | .readTail _ => 200
  | .waiting _ => if ready then 80 else 120 + (64 - spins)
  | .sawReady _ => 60
  | .copied _ => 40
  | .cleared _ => 20

/-- A call in the first loop is followed by one in the second. -/
def loopLeft (last : Bool) : Nat := if last then 0 else 500

/-- More than the steps that the thread takes once `logger_run` is cleared, if it gets no more
messages. -/
def threadLeft (s : Logging ι) : Nat :=
  match s.thread with
  | .absent => 0
  | .returned => 0
  | .closing => 1
  | .top => 500
  | .sleeping => 501
  | .resting => 502
  | .wrote => 502
  | .writing _ => 503
  | .calling last => loopLeft last + 210
  | .inside last spins => loopLeft last + callLeft s.headReady spins s.queue.consumer.pc
  | .checkRun last => loopLeft last + if s.headReady then 88 else 100
  | .checkReady last => loopLeft last + if s.headReady then 84 else 90

/-- What a message pays for. -/
def MESSAGE_COST : Nat := 1000

/-- The steps that the thread still takes, at most: those that are left anyway, and those for the
messages in the queue. -/
def stepsLeft (s : Logging ι) : Nat :=
  s.threadLeft + MESSAGE_COST * (s.queue.history.claimed.length - s.queue.history.dequeued.length)

omit [DecidableEq ι] in
/-- A message that is ready makes the call no longer. -/
theorem callLeft_ready (spins : Nat) (pc : ConsumerPc) {ready ready' : Bool}
    (h : ready = true → ready' = true) : callLeft ready' spins pc ≤ callLeft ready spins pc := by
  cases pc with
  | waiting head =>
      cases ready with
      | true =>
          rw [h rfl]
      | false =>
          simp only [callLeft, Bool.false_eq_true, if_false]
          split
          · omega
          · exact Nat.le_refl _
  | _ => exact Nat.le_refl _

omit [DecidableEq ι] in
/-- The steps that are left before the thread looks at the queue again. -/
theorem threadLeft_le (s : Logging ι) : s.threadLeft ≤ 710 := by
  have hloop : ∀ last, loopLeft last ≤ 500 := by
    intro last
    cases last with
    | true => exact Nat.zero_le _
    | false => exact Nat.le_refl _
  have hcall : ∀ ready spins pc, callLeft ready spins pc ≤ 200 := by
    intro ready spins pc
    cases pc with
    | waiting head =>
        simp only [callLeft]
        split
        · omega
        · omega
    | _ => simp [callLeft]
  unfold threadLeft
  cases s.thread with
  | calling last =>
      have h := hloop last
      simp only
      omega
  | inside last spins =>
      have h := hloop last
      have h' := hcall s.headReady spins s.queue.consumer.pc
      simp only
      omega
  | checkRun last =>
      have h := hloop last
      simp only
      split
      · omega
      · omega
  | checkReady last =>
      have h := hloop last
      simp only
      split
      · omega
      · omega
  | _ => simp

omit [DecidableEq ι] in
/-- What the producers do costs the thread no steps, but for the messages they add. -/
theorem threadLeft_produced {q : State ι} (hp : Produced s.queue q) :
    threadLeft { s with queue := q } ≤ s.threadLeft := by
  have hready : s.headReady = true → headReady { s with queue := q } = true := by
    intro h
    unfold headReady at h ⊢
    simp only [hp.consumer]
    cases hpc : s.queue.consumer.pc with
    | waiting head =>
        rw [hpc] at h
        exact hp.ready _ h
    | _ =>
        rw [hpc] at h
        cases h
  have hif : ∀ a b : Nat, a ≤ b → (if headReady { s with queue := q } = true then a else b) ≤
      if s.headReady = true then a else b := by
    intro a b hab
    by_cases h : s.headReady = true
    · rw [if_pos h, if_pos (hready h)]
    · rw [if_neg h]
      split
      · exact hab
      · exact Nat.le_refl _
  unfold Logging.threadLeft
  cases s.thread with
  | inside last spins =>
      simp only [hp.consumer]
      exact Nat.add_le_add_left (callLeft_ready spins _ hready) _
  | checkRun last => exact Nat.add_le_add_left (hif 88 100 (by decide)) _
  | checkReady last => exact Nat.add_le_add_left (hif 84 90 (by decide)) _
  | _ => exact Nat.le_refl _

omit [DecidableEq ι] in
/-- An access to the queue by a call that goes on. -/
theorem callLeft_next {q : State ι} (hq : Next s.queue s.queue.consumer.pc q.consumer.pc)
    (hwaiting : ∀ head, s.queue.consumer.pc = .waiting head → s.headReady = true) (spins n : Nat) :
    callLeft (headReady { s with queue := q }) n q.consumer.pc <
      callLeft s.headReady spins s.queue.consumer.pc := by
  have hready : ∀ head, s.queue.consumer.pc = .waiting head →
      (s.queue.queue.slot head).ready = true := by
    intro head hpc
    have h := hwaiting head hpc
    unfold headReady at h
    rwa [hpc] at h
  generalize hpc : s.queue.consumer.pc = pc at hq hwaiting hready ⊢
  generalize q.consumer.pc = pc' at hq ⊢
  cases hq with
  | read head =>
      simp only [callLeft]
      split
      · omega
      · omega
  | spin head hno =>
      rw [hready head rfl] at hno
      cases hno
  | see head =>
      rw [hwaiting head rfl]
      simp [callLeft]
  | copy head => simp [callLeft]
  | clear head => simp [callLeft]

omit [DecidableEq ι] in
theorem behindLeft_lt (last : Bool) {u : Logging ι} (hthread : u.thread = .behind last) {n : Nat}
    (hn : 3 ≤ n) : u.threadLeft < loopLeft last + n := by
  unfold threadLeft
  rw [hthread]
  cases last with
  | true =>
      show 1 < 0 + n
      omega
  | false =>
      show 502 < 500 + n
      omega

/-- A step inside a call, other than the last of one that got a message. -/
theorem insideStep_left {last : Bool} {spins : Nat} (hi : Inside s last spins t)
    (hno : ∀ head, s.queue.consumer.pc ≠ .cleared head) :
    t.queue.history.dequeued = s.queue.history.dequeued ∧
      t.queue.history.claimed = s.queue.history.claimed ∧
        t.threadLeft < loopLeft last + callLeft s.headReady spins s.queue.consumer.pc := by
  cases hi with
  | access q n hq hpc ht hwaiting =>
      subst ht
      obtain ⟨hside, hconsumed⟩ := consume_side hq
      cases hconsumed with
      | empty head _ _ hidle => exact absurd hidle hpc
      | going hnext hdequeued =>
          exact ⟨hdequeued, hside.claimed,
            Nat.add_lt_add_left (callLeft_next hnext hwaiting spins n) _⟩
      | taken head _ hidle => exact absurd hidle hpc
  | empty q hq hpc hread ht =>
      subst ht
      obtain ⟨hside, hconsumed⟩ := consume_side hq
      obtain ⟨head, hread⟩ := hread
      refine ⟨?_, hside.claimed, ?_⟩
      · cases hconsumed with
        | empty _ _ _ _ hdequeued => exact hdequeued
        | going hnext => exact absurd hpc hnext.ne.1
        | taken head' hcleared => exact absurd hcleared (hno head')
      · rw [hread]
        exact behindLeft_lt last rfl (by simp [callLeft])
  | found q hq hcleared ht =>
      obtain ⟨head, hcleared⟩ := hcleared
      exact absurd hcleared (hno head)
  | spin hwait hready hspins ht =>
      subst ht
      obtain ⟨head, hwait⟩ := hwait
      refine ⟨rfl, rfl, ?_⟩
      show loopLeft last + callLeft s.headReady (spins + 1) s.queue.consumer.pc < _
      rw [hwait, hready]
      simp only [callLeft, Bool.false_eq_true, if_false]
      omega
  | look hwait hready hspins ht =>
      subst ht
      obtain ⟨head, hwait⟩ := hwait
      refine ⟨rfl, rfl, ?_⟩
      show loopLeft last + (if s.headReady = true then 88 else 100) < _
      rw [hwait, hready]
      simp only [callLeft, Bool.false_eq_true, if_false]
      omega

/-- The last access of a call that got a message. -/
theorem insideStep_found {last : Bool} {spins head : Nat} (hi : Inside s last spins t)
    (hcleared : s.queue.consumer.pc = .cleared head) :
    t.queue.history.claimed = s.queue.history.claimed ∧
      t.queue.history.dequeued = s.queue.history.dequeued ++ [s.queue.consumer.out] := by
  cases hi with
  | access q n hq hpc ht =>
      cases (consume_side hq).2 with
      | empty head' hread => cases hcleared.symm.trans hread
      | going hnext => exact absurd hcleared (hnext.ne.2 head)
      | taken head' _ hidle => exact absurd hidle hpc
  | empty q hq hpc hread ht =>
      obtain ⟨head', hread⟩ := hread
      cases hcleared.symm.trans hread
  | found q hq hpc ht =>
      subst ht
      obtain ⟨hside, hconsumed⟩ := consume_side hq
      cases hconsumed with
      | empty head' hread => cases hcleared.symm.trans hread
      | going hnext => exact absurd hcleared (hnext.ne.2 head)
      | taken head' _ _ _ hdequeued => exact ⟨hside.claimed, hdequeued⟩
  | spin hwait _ _ ht | look hwait _ _ ht =>
      obtain ⟨head', hwait⟩ := hwait
      cases hcleared.symm.trans hwait

/-- The step lemma: each step of the thread is one less to come. -/
theorem Inv.stepsLeft_logger (h : s.Inv) (hrun : s.run = false) (hst : s.loggerStep = some t) :
    t.stepsLeft + 1 ≤ s.stepsLeft := by
  have hplaced := h.placed
  -- A step that dequeues nothing pays with the thread's own place in the loop.
  have hless : t.queue.history.dequeued = s.queue.history.dequeued →
      t.queue.history.claimed = s.queue.history.claimed → t.threadLeft < s.threadLeft →
        t.stepsLeft + 1 ≤ s.stepsLeft := by
    intro hdequeued hclaimed hlt
    unfold stepsLeft
    rw [hdequeued, hclaimed]
    omega
  have hleft : ∀ pc, s.thread = pc → s.threadLeft = threadLeft { s with thread := pc } := by
    intro pc hpc
    rw [← hpc]
  unfold Placed at hplaced
  unfold Logging.loggerStep at hst
  cases hthread : s.thread with
  | absent | returned =>
      rw [hthread] at hst
      cases hst
  | top =>
      rw [hthread, hrun] at hst
      rw [hleft _ hthread] at hless
      cases hst
      apply hless rfl rfl
      show 210 < 500
      decide
  | sleeping =>
      rw [hthread] at hst
      rw [hleft _ hthread] at hless
      cases hst
      exact hless rfl rfl (Nat.lt_succ_self 500)
  | closing =>
      rw [hthread] at hst
      rw [hleft _ hthread] at hless
      cases hst
      exact hless rfl rfl Nat.zero_lt_one
  | wrote =>
      rw [hthread] at hst
      rw [hleft _ hthread] at hless
      dsimp only at hst
      split at hst
      · cases hst
        apply hless rfl rfl
        show 500 < 502
        decide
      · cases hst
        apply hless rfl rfl
        show 500 < 502
        decide
  | resting =>
      rw [hthread] at hst
      rw [hleft _ hthread] at hless
      dsimp only at hst
      split at hst
      · cases hst
        exact hless rfl rfl (Nat.lt_succ_self 501)
      · cases hst
        exact hless rfl rfl (Nat.lt_succ_self 501)
  | calling last =>
      rw [hthread] at hst
      rw [hleft _ hthread] at hless
      obtain ⟨u, hu, rfl⟩ := Option.map_eq_some_iff.1 hst
      obtain ⟨q, hq, rfl⟩ := onQueue_eq hu
      obtain ⟨hside, hpc, -, hdequeued⟩ := dequeue_side hq
      apply hless hdequeued hside.claimed
      show loopLeft last + callLeft _ 0 q.consumer.pc < loopLeft last + 210
      rw [hpc]
      exact Nat.add_lt_add_left (by simp [callLeft]) _
  | inside last spins =>
      rw [hthread] at hst
      rw [hleft _ hthread] at hless
      have hi := insideStep_cases hthread hst
      by_cases hcleared : ∃ head, s.queue.consumer.pc = .cleared head
      · -- The message that was dequeued pays.
        obtain ⟨head, hcleared⟩ := hcleared
        have hok := h.queue.consumer
        rw [ConsumerOk, hcleared] at hok
        have hlt := hok.2.2.2.1
        have hmost := threadLeft_le t
        obtain ⟨hclaimed, hdequeued⟩ := insideStep_found hi hcleared
        unfold stepsLeft MESSAGE_COST
        rw [hclaimed, hdequeued, List.length_append, List.length_singleton]
        omega
      · obtain ⟨hdequeued, hclaimed, hlt⟩ :=
          insideStep_left hi fun head hpc => hcleared ⟨head, hpc⟩
        exact hless hdequeued hclaimed hlt
  -- With `run` cleared the next access is the last look at the slot.
  | checkRun last =>
      rw [hthread, hrun] at hst
      rw [hleft _ hthread] at hless
      cases hst
      apply hless rfl rfl
      show loopLeft last + (if s.headReady = true then 84 else 90) <
        loopLeft last + if s.headReady = true then 88 else 100
      split
      · exact Nat.add_lt_add_left (by decide) _
      · exact Nat.add_lt_add_left (by decide) _
  | checkReady last =>
      rw [hthread] at hst hplaced
      rw [hleft _ hthread] at hless
      obtain ⟨head, hwait⟩ := hplaced
      have hcheck : threadLeft { s with thread := .checkReady last } =
          loopLeft last + if s.headReady = true then 84 else 90 := rfl
      dsimp only at hst
      split at hst
      -- The message is there.
      · rename_i hready
        cases hst
        apply hless rfl rfl
        show loopLeft last + callLeft s.headReady 1 s.queue.consumer.pc < _
        rw [hcheck, hwait, hready]
        exact Nat.add_lt_add_left (by simp [callLeft]) _
      -- It is not, and the call gives up.
      · rename_i hready
        cases hst
        apply hless rfl rfl
        rw [hcheck, if_neg hready]
        exact behindLeft_lt last rfl (by decide)
  | writing last =>
      rw [hthread] at hst
      rw [hleft _ hthread] at hless
      cases hst
      cases last with
      | true =>
          apply hless rfl rfl
          show 210 < 503
          decide
      | false => exact hless rfl rfl (Nat.lt_succ_self 502)

/-- A thread inside `dequeue_log` has a step to take. -/
theorem consume_enabled {q : State ι} (hbusy : q.consumer.pc ≠ .idle) :
    ∃ q', Logger.step q .consume = some q' := by
  have hmove : ∃ u, consumerStep q = some u := by
    unfold consumerStep
    dsimp only
    cases hpc : q.consumer.pc with
    | idle => exact absurd hpc hbusy
    | readTail head =>
        by_cases hempty : head = q.queue.tailId
        · exact ⟨_, if_pos hempty⟩
        · exact ⟨_, if_neg hempty⟩
    | waiting head =>
        by_cases hready : (q.queue.slot head).ready = true
        · exact ⟨_, if_pos hready⟩
        · exact ⟨_, if_neg hready⟩
    | sawReady | copied | cleared => exact ⟨_, rfl⟩
  obtain ⟨u, hu⟩ := hmove
  refine ⟨u.observe, ?_⟩
  show (consumerStep q).map State.observe = _
  rw [hu]
  rfl

/-- The thread can always go on. -/
theorem Inv.logger_enabled (h : s.Inv) (habsent : s.thread ≠ .absent) (hreturned : s.thread ≠ .returned) :
    ∃ u, s.loggerStep = some u := by
  have hplaced := h.placed
  unfold Placed at hplaced
  unfold Logging.loggerStep
  cases hthread : s.thread with
  | absent => exact absurd hthread habsent
  | returned => exact absurd hthread hreturned
  | top | checkRun | checkReady | writing | wrote | resting | sleeping | closing => exact ⟨_, rfl⟩
  | calling last =>
      rw [hthread] at hplaced
      have hidle : s.queue.consumer.pc = .idle := hplaced
      have hmove : ∃ u, move s.queue (.dequeue s.queue.consumer.out) = some u := ⟨_, if_pos hidle⟩
      obtain ⟨u, hu⟩ := hmove
      simp only [onQueue, Logger.step, hu]
      exact ⟨_, rfl⟩
  | inside last spins =>
      rw [hthread] at hplaced
      obtain ⟨q, hq⟩ := consume_enabled hplaced
      simp only [Logging.insideStep, onQueue, hq]
      cases hpc : s.queue.consumer.pc with
      | idle => exact absurd hpc hplaced
      | readTail | sawReady | copied | cleared => exact ⟨_, rfl⟩
      | waiting head =>
          dsimp only
          split
          · exact ⟨_, rfl⟩
          split
          · exact ⟨_, rfl⟩
          · exact ⟨_, rfl⟩

/-- `log_shutdown` waits for the thread. -/
def Joining (s : Logging ι) : Prop := s.Inv ∧ s.joining = true

/-- What a step does to the steps that are left: the thread takes one, and what a new message adds
is paid. -/
theorem Joining.step (h : s.Joining) {a : LoggingAction ι} (hgood : Few s a ∧ a ≠ .join)
    (hst : s.step a = some t) : t.Joining ∧
      (if a.isLogger then 1 else 0) + t.stepsLeft + MESSAGE_COST * s.queue.history.claimed.length ≤
        s.stepsLeft + MESSAGE_COST * t.queue.history.claimed.length := by
  obtain ⟨hinv, hjoining⟩ := h
  have hinv' : t.Inv := hinv.step hgood.1 hst
  have hle := hinv.queue.le
  have hproduced : ∀ {q : State ι}, Produced s.queue q → t = { s with queue := q } →
      t.Joining ∧ 0 + t.stepsLeft + MESSAGE_COST * s.queue.history.claimed.length ≤
        s.stepsLeft + MESSAGE_COST * t.queue.history.claimed.length := by
    intro q hp ht
    have hgrows := hp.grows
    have hleft := threadLeft_produced hp
    subst ht
    refine ⟨⟨hinv', hjoining⟩, ?_⟩
    unfold stepsLeft MESSAGE_COST
    simp only [hp.dequeued]
    omega
  cases a with
  | init created =>
      obtain ⟨⟨-, hno⟩, -⟩ := Option.ite_none_right_eq_some.1 hst
      cases hno.symm.trans hjoining
  | shutdown =>
      obtain ⟨hno, -⟩ := Option.ite_none_left_eq_some.1 hst
      exact absurd hjoining hno
  | join => exact absurd rfl hgood.2
  | log i level text =>
      unfold Logging.step at hst
      cases hl : tinyLogEntry level text with
      | none =>
          simp only [hl] at hst
          cases hst
          refine ⟨⟨hinv, hjoining⟩, ?_⟩
          simp [LoggingAction.isLogger]
      | some l =>
          simp only [hl] at hst
          obtain ⟨q, hq, ht⟩ := onQueue_eq hst
          exact hproduced (enqueue_produced hq) ht
  | produce i =>
      obtain ⟨q, hq, ht⟩ := onQueue_eq (a := .produce i) hst
      exact hproduced (produce_produced hq) ht
  | logger =>
      obtain ⟨hside, hsame, -⟩ := loggerStep_side hst
      have hless := hinv.stepsLeft_logger (hinv.controlled.joining hjoining).1 hst
      refine ⟨⟨hinv', hsame.trans hjoining⟩, ?_⟩
      rw [hside.claimed]
      show 1 + t.stepsLeft + _ ≤ _
      omega

/-- However the other threads are scheduled, as long as no call is passed by `2 ^ 31` claims, the
thread takes no more steps after `log_shutdown` was called than a constant for each message that
is in the queue or still comes, and one more; and it is never stuck before it returns. -/
theorem shutdown_returns (before : List (LoggingAction ι)) (hbefore : AllSteps step Few (start ι) before) :
    ∀ s ∈ runStates step (start ι) before, s.joining = true →
      ∀ (after : List (LoggingAction ι)) (t : Logging ι),
        AllSteps step (fun s a => Few s a ∧ a ≠ .join) s after → runTo step s after = some t →
          after.countP LoggingAction.isLogger ≤ MESSAGE_COST *
            (t.queue.history.claimed.length - s.queue.history.dequeued.length + 1) ∧
          (t.thread ≠ .returned → ∃ u, t.step .logger = some u) := by
  intro s hs hjoining after t hafter hrun
  have hinv : s.Inv :=
    AllSteps.invariant (fun s a s' hi hfew hst => hi.step hfew hst) (start_inv ι) hbefore s hs
  have hstep : ∀ (s : Logging ι) (a : LoggingAction ι) (s' : Logging ι), s.Joining →
      Few s a ∧ a ≠ .join → s.step a = some s' → s'.Joining ∧ _ :=
    fun s a s' hj hgood hst => hj.step hgood hst
  have hpaid := AllSteps.countP_le hstep ⟨hinv, hjoining⟩ hafter hrun
  have hend : t.Joining := AllSteps.invariant (fun s a s' hj hgood hst => (hstep s a s' hj hgood hst).1)
    ⟨hinv, hjoining⟩ hafter t (runTo_mem hrun)
  constructor
  · have hle := hinv.queue.le
    have hmost := threadLeft_le s
    unfold stepsLeft MESSAGE_COST at hpaid
    unfold MESSAGE_COST
    omega
  · intro hreturned
    exact hend.1.logger_enabled (hend.1.controlled.joining hend.2).2 hreturned

/-- A producer stops for good between its claim and the store of `ready`. -/
def stuckProducer : List (LoggingAction (Fin 1)) :=
  .init true :: .log ⟨0, Nat.zero_lt_one⟩ .info (some [104, 105]) ::
    List.replicate 3 (.produce ⟨0, Nat.zero_lt_one⟩) ++ [.shutdown]

/-- The thread gives up the message. -/
theorem shutdown_returns_stuck : ∃ s ∈ runStates step (start (Fin 1)) stuckProducer,
    ∃ t, runTo step s (List.replicate 71 .logger) = some t ∧ t.thread = .returned ∧
      71 ≤ MESSAGE_COST * (t.queue.history.claimed.length - s.queue.history.dequeued.length + 1) := by
  obtain ⟨s, hs, hjoining, hany, hgood⟩ := exists_of_run
    (p := fun s : Logging (Fin 1) => s.joining = true ∧
      ((runTo step s (List.replicate 71 .logger)).any fun t => decide (t.thread = .returned)) = true ∧
        AllSteps step (fun s a => Few s a ∧ a ≠ .join) s (List.replicate 71 .logger))
    (show (runTo step (start (Fin 1)) stuckProducer).any _ = true by decide +kernel)
  obtain ⟨t, hrun, hreturned⟩ := (Option.any_eq_true ..).1 hany
  obtain ⟨hcount, -⟩ := shutdown_returns stuckProducer (by decide +kernel) s hs hjoining _ t hgood hrun
  exact ⟨s, hs, t, hrun, of_decide_eq_true hreturned, hcount⟩

end TinyServer.Logger.Logging
