import TinyServer.Logger.Thread

/-!
# What the logger thread writes

As long as fewer than `2 ^ 31` messages are claimed by others during one call of `tiny_log`
(`Few`), `stdout` has the first accepted messages, in the order in which they were accepted
(`logging_writes`). At most `LOG_FLUSH_EVERY` of them are not flushed while the logger runs,
and none while it sleeps or after it has returned. `Logging.Inv` joins the invariant of the
queue with where the thread stands.
-/

set_option autoImplicit false

namespace TinyServer.Logger

open TinyServer.Lib
open TinyServer.Queue (slotOf)

variable {ι : Type}

/-! ## Texts -/

/-- The bytes of messages that are written one after the other. -/
def texts (ls : List LogEntry) : List UInt8 := ls.flatMap LogEntry.text

theorem texts_append (ls ls' : List LogEntry) : texts (ls ++ ls') = texts ls ++ texts ls' :=
  List.flatMap_append

/-- The text of a message is part of its payload. -/
theorem texts_of_payload {ls ls' : List LogEntry}
    (h : ls.map LogEntry.payload = ls'.map LogEntry.payload) : texts ls = texts ls' := by
  have htext : ∀ l : LogEntry, l.text = l.payload.2.2 := fun _ => rfl
  have hmap : ∀ ls : List LogEntry,
      texts ls = (ls.map LogEntry.payload).flatMap fun p => p.2.2 := by
    intro ls
    rw [List.flatMap_map]
    rfl
  rw [hmap, hmap, h]

/-- The message that goes into the queue is the formatted text, cut so that a NUL fits behind. -/
theorem tinyLogEntry_text {level : LogLevel} {bytes : List UInt8} {l : LogEntry}
    (h : tinyLogEntry level (some bytes) = some l) :
    l.level = level ∧ l.text = bytes.take (LOG_MESSAGE_SIZE - 1) := by
  have hl := Option.some.inj h
  subst hl
  refine ⟨rfl, ?_⟩
  have hlen : (messageLength bytes.length).val = min bytes.length (LOG_MESSAGE_SIZE - 1) := by
    unfold messageLength LOG_MESSAGE_SIZE
    split
    · simp only
      omega
    · simp only
      omega
  apply List.ext_getElem
  · simp only [LogEntry.text, List.length_take, List.length_ofFn, hlen, LOG_MESSAGE_SIZE]
    omega
  · intro k h₁ h₂
    rw [List.length_take] at h₂
    have hk : k + 1 < LOG_MESSAGE_SIZE := by
      unfold LOG_MESSAGE_SIZE at h₂ ⊢
      omega
    simp only [LogEntry.text, List.getElem_take, List.getElem_ofFn, if_pos hk]
    exact List.getD_eq_getElem _ _ (by omega)

/-! ## The queue's steps -/

/-- What the producers leave to the logger thread. -/
structure Produced (q q' : State ι) : Prop where
  consumer : q'.consumer = q.consumer
  dequeued : q'.history.dequeued = q.history.dequeued
  grows : q.history.claimed.length ≤ q'.history.claimed.length
  ready : ∀ x, (q.queue.data x).ready = true → (q'.queue.data x).ready = true

/-- What a step of `dequeue_log` leaves to the producers. -/
structure SameSide (q q' : State ι) : Prop where
  producers : q'.producers = q.producers
  claimed : q'.history.claimed = q.history.claimed

/-- The next access of a call of `dequeue_log` that goes on. -/
inductive Next (q : State ι) : ConsumerPc → ConsumerPc → Prop
  | read (head : Nat) : Next q (.readTail head) (.waiting head)
  | spin (head : Nat) (hready : (q.queue.slot head).ready = false) :
      Next q (.waiting head) (.waiting head)
  | see (head : Nat) (hready : (q.queue.slot head).ready = true) :
      Next q (.waiting head) (.sawReady head)
  | copy (head : Nat) : Next q (.sawReady head) (.copied head)
  | clear (head : Nat) : Next q (.copied head) (.cleared head)

/-- A step inside `dequeue_log` does not enter it. -/
theorem Next.ne {q : State ι} {pc pc' : ConsumerPc} (h : Next q pc pc') :
    pc' ≠ .idle ∧ ∀ head, pc ≠ .cleared head := by
  cases h with
  | read | spin | see | copy | clear =>
      constructor
      · rintro ⟨⟩
      · rintro _ ⟨⟩

/-- The steps of `dequeue_log` behind its first load. -/
inductive Consumed (q q' : State ι) : Prop
  | empty (head : Nat) (hpc : q.consumer.pc = .readTail head) (hempty : head = q.queue.tailId)
      (hpc' : q'.consumer.pc = .idle) (hdequeued : q'.history.dequeued = q.history.dequeued)
  | going (hnext : Next q q.consumer.pc q'.consumer.pc)
      (hdequeued : q'.history.dequeued = q.history.dequeued)
  | taken (head : Nat) (hpc : q.consumer.pc = .cleared head) (hpc' : q'.consumer.pc = .idle)
      (hout : q'.consumer.out = q.consumer.out)
      (hdequeued : q'.history.dequeued = q.history.dequeued ++ [q.consumer.out])

section Queue

variable [DecidableEq ι] {q q' : State ι} {i : ι}

omit [DecidableEq ι] in
theorem setSlot_ready {e : LogEntry} {pos : Nat}
    (he : (q.queue.slot pos).ready = true → e.ready = true) :
    ∀ x, (q.queue.data x).ready = true → ((q.queue.setSlot pos e).data x).ready = true := by
  intro x hx
  by_cases h : x = slotOf logCapacity pos
  · subst h
    show (Function.update q.queue.data (slotOf logCapacity pos) e _).ready = true
    rw [Function.update_self]
    exact he hx
  · show (Function.update q.queue.data (slotOf logCapacity pos) e x).ready = true
    rw [Function.update_of_ne h]
    exact hx

/-- To enter `enqueue_log` takes nothing from the queue. -/
theorem enqueue_produced {l : LogEntry} (h : step q (.enqueue i l) = some q') : Produced q q' := by
  obtain ⟨u, hmove, rfl⟩ := Option.map_eq_some_iff.1 h
  rw [move] at hmove
  split at hmove
  · cases hmove
    exact ⟨rfl, rfl, Nat.le_refl _, fun _ hx => hx⟩
  · cases hmove

/-- Nor does a step inside it. -/
theorem produce_produced (h : step q (.produce i) = some q') : Produced q q' := by
  obtain ⟨u, hmove, rfl⟩ := Option.map_eq_some_iff.1 h
  rw [move, producerStep] at hmove
  cases hpc : q.producers i with
  | idle =>
      rw [hpc] at hmove
      cases hmove
  | readTail l =>
      rw [hpc] at hmove
      cases hmove
      exact ⟨rfl, rfl, Nat.le_refl _, fun _ hx => hx⟩
  | readHead l tail =>
      rw [hpc] at hmove
      cases hmove
      unfold State.loadHead
      split
      · exact ⟨rfl, rfl, Nat.le_refl _, fun _ hx => hx⟩
      · exact ⟨rfl, rfl, Nat.le_refl _, fun _ hx => hx⟩
  | checked l tail =>
      rw [hpc] at hmove
      cases hmove
      unfold State.claim
      split
      · refine ⟨rfl, rfl, ?_, fun _ hx => hx⟩
        simp only [State.observe, List.length_append]
        omega
      · exact ⟨rfl, rfl, Nat.le_refl _, fun _ hx => hx⟩
  | claimed l pos =>
      rw [hpc] at hmove
      cases hmove
      exact ⟨rfl, rfl, Nat.le_refl _, setSlot_ready fun hx => hx⟩
  | copied l pos =>
      rw [hpc] at hmove
      cases hmove
      exact ⟨rfl, rfl, Nat.le_refl _, setSlot_ready fun _ => rfl⟩

/-- The thread enters `dequeue_log`. -/
theorem dequeue_side {out : LogEntry} (h : step q (.dequeue out) = some q') :
    SameSide q q' ∧ q'.consumer.pc = .readTail q.queue.headId ∧ q'.consumer.out = out ∧
      q'.history.dequeued = q.history.dequeued := by
  obtain ⟨u, hmove, rfl⟩ := Option.map_eq_some_iff.1 h
  rw [move] at hmove
  split at hmove
  · cases hmove
    exact ⟨⟨rfl, rfl⟩, rfl, rfl, rfl⟩
  · cases hmove

/-- The inversion lemma of `dequeue_log`. -/
theorem consume_side (h : step q .consume = some q') : SameSide q q' ∧ Consumed q q' := by
  obtain ⟨u, hmove, rfl⟩ := Option.map_eq_some_iff.1 h
  have hgo : ∀ {v : State ι}, SameSide q v → v.history.dequeued = q.history.dequeued →
      Next q q.consumer.pc v.consumer.pc → SameSide q v.observe ∧ Consumed q v.observe :=
    fun hside hdequeued hnext => ⟨⟨hside.producers, hside.claimed⟩, .going hnext hdequeued⟩
  rw [move, consumerStep] at hmove
  dsimp only at hmove
  cases hpc : q.consumer.pc with
  | idle =>
      rw [hpc] at hmove
      cases hmove
  | readTail head =>
      rw [hpc] at hmove hgo
      dsimp only at hmove
      split at hmove
      · rename_i hempty
        cases hmove
        exact ⟨⟨rfl, rfl⟩, .empty head hpc hempty rfl rfl⟩
      · cases hmove
        exact hgo ⟨rfl, rfl⟩ rfl (.read head)
  | waiting head =>
      rw [hpc] at hmove hgo
      dsimp only at hmove
      split at hmove
      · rename_i hready
        cases hmove
        exact hgo ⟨rfl, rfl⟩ rfl (.see head hready)
      · rename_i hready
        cases hmove
        apply hgo ⟨rfl, rfl⟩ rfl
        rw [hpc]
        exact .spin head (by simpa using hready)
  | sawReady head =>
      rw [hpc] at hmove hgo
      cases hmove
      exact hgo ⟨rfl, rfl⟩ rfl (.copy head)
  | copied head =>
      rw [hpc] at hmove hgo
      cases hmove
      exact hgo ⟨rfl, rfl⟩ rfl (.clear head)
  | cleared head =>
      rw [hpc] at hmove
      cases hmove
      exact ⟨⟨rfl, rfl⟩, .taken head hpc rfl rfl rfl⟩

end Queue

/-! ## The invariant -/

namespace LoggerPc

/-- In the first loop of `logger`. -/
def looping : LoggerPc → Bool
  | .top | .wrote | .resting | .sleeping => true
  | .calling last | .inside last _ | .checkRun last | .checkReady last | .writing last => !last
  | _ => false

/-- In the second loop, or behind it. -/
def ending : LoggerPc → Bool
  | .calling last | .inside last _ | .checkRun last | .checkReady last | .writing last => last
  | .closing | .returned => true
  | _ => false

/-- A message is dequeued and not yet written. -/
def holding : LoggerPc → Bool
  | .writing _ => true
  | _ => false

/-- All that was written has just been flushed. -/
def flushing : LoggerPc → Bool
  | .absent | .sleeping | .returned => true
  | _ => false

/-- How large `since_flush` may be. -/
def allowance : LoggerPc → Nat
  | .wrote => LOG_FLUSH_EVERY
  | _ => LOG_FLUSH_EVERY - 1

/-- In a call of `dequeue_log`, or right behind it. -/
structure Calls (last : Bool) (pc : LoggerPc) : Prop where
  looping : pc.looping = !last
  ending : pc.ending = last
  allowance : pc.allowance = LOG_FLUSH_EVERY - 1
  flushing : pc.flushing = false
  present : pc ≠ .absent

section Calls

variable (last : Bool)

theorem Calls.calling : Calls last (.calling last) := ⟨rfl, rfl, rfl, rfl, by rintro ⟨⟩⟩

theorem Calls.inside (spins : Nat) : Calls last (.inside last spins) :=
  ⟨rfl, rfl, rfl, rfl, by rintro ⟨⟩⟩

theorem Calls.checkRun : Calls last (.checkRun last) := ⟨rfl, rfl, rfl, rfl, by rintro ⟨⟩⟩

theorem Calls.checkReady : Calls last (.checkReady last) := ⟨rfl, rfl, rfl, rfl, by rintro ⟨⟩⟩

theorem Calls.writing : Calls last (.writing last) := ⟨rfl, rfl, rfl, rfl, by rintro ⟨⟩⟩

theorem Calls.behind : Calls last (behind last) := by
  cases last with
  | true => exact ⟨rfl, rfl, rfl, rfl, by rintro ⟨⟩⟩
  | false => exact ⟨rfl, rfl, rfl, rfl, by rintro ⟨⟩⟩

theorem behind_holding : (behind last).holding = false := by
  cases last with
  | true => rfl
  | false => rfl

end Calls

end LoggerPc

namespace Logging

variable {s t : Logging ι}

/-- The messages that were written. -/
def taken (s : Logging ι) : List LogEntry :=
  if s.thread.holding then s.queue.history.dequeued.dropLast else s.queue.history.dequeued

/-- Where the thread stands in `dequeue_log`. -/
def Placed (s : Logging ι) : Prop :=
  match s.thread with
  | .inside _ _ => s.queue.consumer.pc ≠ .idle
  | .checkRun _ => ∃ head, s.queue.consumer.pc = .waiting head
  | .checkReady _ => ∃ head, s.queue.consumer.pc = .waiting head
  | .writing _ => s.queue.consumer.pc = .idle ∧
      s.queue.history.dequeued.getLast? = some s.queue.consumer.out
  | _ => s.queue.consumer.pc = .idle

/-- What is flushed of what was written. -/
structure Near (s : Logging ι) : Prop where
  le : s.flushed <+: s.written
  looping : s.thread.looping = true →
    s.flushed = texts (s.taken.take (s.taken.length - s.sinceFlush)) ∧
      s.sinceFlush ≤ s.thread.allowance
  flushing : s.thread.flushing = true → s.flushed = s.written

/-- What `log_init` and `log_shutdown` have done. -/
structure Controlled (s : Logging ι) : Prop where
  joining : s.joining = true → s.run = false ∧ s.thread ≠ .absent
  ending : s.thread.ending = true → s.joining = true
  stopped : s.run = false → s.thread ≠ .absent → s.joining = true
  started : s.started = true → s.thread ≠ .absent

/-- The invariant: the queue is as its parties know it, the thread stands where its variables
say, and what it wrote is what it took from the queue. -/
structure Inv (s : Logging ι) : Prop where
  queue : Logger.Inv s.queue
  placed : s.Placed
  written : s.written = texts s.taken
  near : s.Near
  controlled : s.Controlled

theorem start_inv (ι : Type) : (start ι).Inv := by
  refine ⟨Logger.start_inv ι, rfl, rfl, ⟨List.prefix_rfl, ?_, fun _ => rfl⟩, ⟨?_, ?_, ?_, ?_⟩⟩
  · rintro ⟨⟩
  · rintro ⟨⟩
  · rintro ⟨⟩
  · rintro ⟨⟩
  · rintro ⟨⟩

/-- A producer's step. -/
theorem Inv.produced (h : s.Inv) {q : State ι} (hq : Logger.Inv q) (hp : Produced s.queue q) :
    Inv { s with queue := q } := by
  have htaken : taken { s with queue := q } = s.taken := by
    unfold taken
    rw [hp.dequeued]
  have hplaced : Placed { s with queue := q } := by
    have hold := h.placed
    unfold Placed at hold ⊢
    simp only [hp.consumer, hp.dequeued]
    exact hold
  refine ⟨hq, hplaced, h.written.trans (congrArg texts htaken.symm), ⟨h.near.le, ?_, h.near.flushing⟩,
    ⟨h.controlled.joining, h.controlled.ending, h.controlled.stopped, h.controlled.started⟩⟩
  rw [htaken]
  exact h.near.looping

/-- A step of the thread that writes nothing and flushes nothing. -/
theorem Inv.advance (h : s.Inv) {q : State ι} {pc : LoggerPc} (hq : Logger.Inv q)
    (hplaced : Placed { s with queue := q, thread := pc })
    (htaken : taken { s with queue := q, thread := pc } = s.taken)
    (hlooping : pc.looping = true → s.thread.looping = true ∧ s.sinceFlush ≤ pc.allowance)
    (hflushing : pc.flushing = true → s.flushed = s.written)
    (hending : pc.ending = true → s.joining = true) (hpc : pc ≠ .absent)
    (hthread : s.thread ≠ .absent) : Inv { s with queue := q, thread := pc } := by
  refine ⟨hq, hplaced, h.written.trans (congrArg texts htaken.symm), ⟨h.near.le, ?_, hflushing⟩, ?_⟩
  · intro hl
    obtain ⟨hold, hle⟩ := hlooping hl
    rw [htaken]
    exact ⟨(h.near.looping hold).1, hle⟩
  · exact ⟨fun hj => ⟨(h.controlled.joining hj).1, hpc⟩, hending,
      fun hr _ => h.controlled.stopped hr hthread, fun _ => hpc⟩

/-- A step of the thread between two calls of `dequeue_log`. -/
theorem Inv.goto (h : s.Inv) {pc : LoggerPc} (hplaced : (s.goto pc).Placed)
    (hholding : pc.holding = s.thread.holding)
    (hlooping : pc.looping = true → s.thread.looping = true ∧ s.sinceFlush ≤ pc.allowance)
    (hflushing : pc.flushing = true → s.flushed = s.written)
    (hending : pc.ending = true → s.joining = true) (hpc : pc ≠ .absent)
    (hthread : s.thread ≠ .absent) : (s.goto pc).Inv := by
  apply h.advance h.queue hplaced ?_ hlooping hflushing hending hpc hthread
  unfold taken
  rw [hholding]

/-- A flush. -/
theorem Inv.flush (h : s.Inv) {pc : LoggerPc} (hplaced : (s.flush.goto pc).Placed)
    (hholding : pc.holding = s.thread.holding) (hending : pc.ending = true → s.joining = true)
    (hpc : pc ≠ .absent) (hthread : s.thread ≠ .absent) : (s.flush.goto pc).Inv := by
  have htaken : taken (s.flush.goto pc) = s.taken := by
    show (if pc.holding then s.queue.history.dequeued.dropLast else s.queue.history.dequeued) = _
    rw [hholding]
    rfl
  refine ⟨h.queue, hplaced, h.written.trans (congrArg texts htaken.symm),
    ⟨List.prefix_rfl, ?_, fun _ => rfl⟩, ?_⟩
  · intro _
    refine ⟨?_, Nat.zero_le _⟩
    show s.written = texts ((taken (s.flush.goto pc)).take ((taken (s.flush.goto pc)).length - 0))
    rw [htaken, Nat.sub_zero, List.take_length]
    exact h.written
  · exact ⟨fun hj => ⟨(h.controlled.joining hj).1, hpc⟩, hending,
      fun hr _ => h.controlled.stopped hr hthread, fun _ => hpc⟩

/-- The message that `dequeue_log` has returned is written. -/
theorem Inv.write (h : s.Inv) {last : Bool} (hthread : s.thread = .writing last) :
    (s.write last).Inv := by
  have hplaced := h.placed
  unfold Placed at hplaced
  rw [hthread] at hplaced
  obtain ⟨hidle, hlast⟩ := hplaced
  have hbefore : s.taken = s.queue.history.dequeued.dropLast := by
    unfold taken
    rw [hthread]
    rfl
  have hall : s.queue.history.dequeued = s.taken ++ [s.queue.consumer.out] := by
    rw [hbefore]
    exact (List.dropLast_append_getLast? _ hlast).symm
  have hwritten : s.written ++ s.queue.consumer.out.text = texts s.queue.history.dequeued := by
    rw [hall, texts_append, ← h.written]
    simp only [texts, List.flatMap_cons, List.flatMap_nil, List.append_nil]
  have hjoining : last = true → s.joining = true := by
    intro hl
    apply h.controlled.ending
    rw [hthread]
    exact hl
  have hthere : s.thread ≠ .absent := by
    rw [hthread]
    rintro ⟨⟩
  cases last with
  | true =>
      refine ⟨h.queue, hidle, hwritten, ⟨?_, ?_, ?_⟩, ⟨fun hj => ⟨(h.controlled.joining hj).1, ?_⟩,
        fun _ => hjoining rfl, fun hr _ => h.controlled.stopped hr hthere, fun _ => ?_⟩⟩
      · exact h.near.le.trans (List.prefix_append _ _)
      · rintro ⟨⟩
      · rintro ⟨⟩
      · rintro ⟨⟩
      · rintro ⟨⟩
  | false =>
      refine ⟨h.queue, hidle, hwritten, ⟨?_, fun _ => ?_, ?_⟩, ⟨fun hj => ⟨(h.controlled.joining hj).1, ?_⟩,
        ?_, fun hr _ => h.controlled.stopped hr hthere, fun _ => ?_⟩⟩
      · exact h.near.le.trans (List.prefix_append _ _)
      · -- One more message is not flushed.
        obtain ⟨hflushed, hle⟩ := h.near.looping (by rw [hthread]; rfl)
        rw [hthread] at hle
        refine ⟨?_, ?_⟩
        · show s.flushed = texts (s.queue.history.dequeued.take
            (s.queue.history.dequeued.length - (s.sinceFlush + 1)))
          rw [hflushed, hall, List.length_append, List.length_singleton, Nat.add_sub_add_right,
            List.take_append_of_le_length (Nat.sub_le _ _)]
        · exact Nat.succ_le_succ hle
      · rintro ⟨⟩
      · rintro ⟨⟩
      · rintro ⟨⟩
      · rintro ⟨⟩

/-- A step in a call of `dequeue_log`. -/
theorem Inv.within (h : s.Inv) {q : State ι} {last : Bool} {pc : LoggerPc}
    (hfrom : s.thread.Calls last) (hto : pc.Calls last) (hq : Logger.Inv q)
    (hplaced : Placed { s with queue := q, thread := pc })
    (htaken : taken { s with queue := q, thread := pc } = s.taken) :
    Inv { s with queue := q, thread := pc } := by
  apply h.advance hq hplaced htaken
  · intro hl
    have hold : s.thread.looping = true := hfrom.looping.trans (hto.looping.symm.trans hl)
    have hle := (h.near.looping hold).2
    rw [hfrom.allowance] at hle
    rw [hto.allowance]
    exact ⟨hold, hle⟩
  · rw [hto.flushing]
    rintro ⟨⟩
  · intro he
    exact h.controlled.ending (hfrom.ending.trans (hto.ending.symm.trans he))
  · exact hto.present
  · exact hfrom.present

/-- The messages written so far, where the thread holds none. -/
theorem taken_eq (hholding : s.thread.holding = false) : s.taken = s.queue.history.dequeued := by
  unfold taken
  rw [hholding]
  rfl

/-- After a message was written the thread is outside `dequeue_log`. -/
theorem placed_behind {last : Bool} {q : State ι} (hidle : q.consumer.pc = .idle) :
    Placed { s with queue := q, thread := .behind last } := by
  cases last with
  | true => exact hidle
  | false => exact hidle

variable [DecidableEq ι]

/-- A step of the queue changes the queue only. -/
theorem onQueue_eq {a : Action ι} (h : s.onQueue a = some t) :
    ∃ q, Logger.step s.queue a = some q ∧ t = { s with queue := q } := by
  obtain ⟨q, hq, rfl⟩ := Option.map_eq_some_iff.1 h
  exact ⟨q, hq, rfl⟩

/-- What a step inside `dequeue_log` comes to. -/
inductive Inside (s : Logging ι) (last : Bool) (spins : Nat) (t : Logging ι) : Prop
  /-- An access to the queue; the thread goes on inside, with a new count or the old one. -/
  | access (q : State ι) (n : Nat) (hq : Logger.step s.queue .consume = some q)
      (hpc : q.consumer.pc ≠ .idle) (ht : t = { s with queue := q, thread := .inside last n })
      (hwaiting : ∀ head, s.queue.consumer.pc = .waiting head → s.headReady = true)
  /-- The queue was empty. -/
  | empty (q : State ι) (hq : Logger.step s.queue .consume = some q)
      (hpc : q.consumer.pc = .idle) (hempty : ∃ head, s.queue.consumer.pc = .readTail head)
      (ht : t = { s with queue := q, thread := .behind last })
  | found (q : State ι) (hq : Logger.step s.queue .consume = some q)
      (hpc : ∃ head, s.queue.consumer.pc = .cleared head)
      (ht : t = { s with queue := q, thread := .writing last })
  | spin (hpc : ∃ head, s.queue.consumer.pc = .waiting head) (hready : s.headReady = false)
      (hspins : spins < 64) (ht : t = s.goto (.inside last (spins + 1)))
  | look (hpc : ∃ head, s.queue.consumer.pc = .waiting head) (hready : s.headReady = false)
      (hspins : 64 ≤ spins) (ht : t = s.goto (.checkRun last))

/-- What a step of the thread inside `dequeue_log` does. -/
theorem insideStep_cases {last : Bool} {spins : Nat} (hthread : s.thread = .inside last spins)
    (h : s.insideStep last spins = some t) : Inside s last spins t := by
  have hkeep : ∀ q : State ι, { s with queue := q } =
      ({ s with queue := q, thread := .inside last spins } : Logging ι) := by
    intro q
    rw [← hthread]
  -- An access to the queue that neither finds it empty nor ends the call goes on.
  have hgo : ∀ {q : State ι}, (∀ head, s.queue.consumer.pc ≠ .cleared head) →
      (∀ head, s.queue.consumer.pc ≠ .readTail head) → Logger.step s.queue .consume = some q →
        q.consumer.pc ≠ .idle := by
    intro q hcleared hread hq
    cases (consume_side hq).2 with
    | empty head hpc => exact absurd hpc (hread head)
    | going hnext => exact hnext.ne.1
    | taken head hpc => exact absurd hpc (hcleared head)
  unfold insideStep at h
  cases hpc : s.queue.consumer.pc with
  | idle =>
      rw [hpc] at h
      cases h
  | readTail head =>
      rw [hpc] at h
      obtain ⟨u, hu, rfl⟩ := Option.map_eq_some_iff.1 h
      obtain ⟨q, hq, rfl⟩ := onQueue_eq hu
      -- Empty: the call returns without a message.
      by_cases hidle : q.consumer.pc = .idle
      · refine .empty q hq hidle ⟨head, hpc⟩ ?_
        simp only [goto, if_pos hidle]
      · refine .access q 0 hq hidle ?_ ?_
        · simp only [goto, if_neg hidle]
        · intro head' hw
          cases hpc.symm.trans hw
  | waiting head =>
      rw [hpc] at h
      dsimp only at h
      -- The message is there, or the thread spins, or it looks at `run`.
      split at h
      · rename_i hready
        obtain ⟨q, hq, rfl⟩ := onQueue_eq h
        refine .access q spins hq (hgo ?_ ?_ hq) (hkeep q) fun _ _ => hready
        · rw [hpc]
          rintro _ ⟨⟩
        · rw [hpc]
          rintro _ ⟨⟩
      · rename_i hready
        have hready : s.headReady = false := by simpa using hready
        split at h
        · rename_i hspins
          exact .spin ⟨head, hpc⟩ hready hspins (Option.some.inj h).symm
        · rename_i hspins
          exact .look ⟨head, hpc⟩ hready (Nat.le_of_not_lt hspins) (Option.some.inj h).symm
  | sawReady head =>
      rw [hpc] at h
      obtain ⟨q, hq, rfl⟩ := onQueue_eq h
      refine .access q spins hq (hgo ?_ ?_ hq) (hkeep q) ?_
      · rw [hpc]
        rintro _ ⟨⟩
      · rw [hpc]
        rintro _ ⟨⟩
      · intro head' hw
        cases hpc.symm.trans hw
  | copied head =>
      rw [hpc] at h
      obtain ⟨q, hq, rfl⟩ := onQueue_eq h
      refine .access q spins hq (hgo ?_ ?_ hq) (hkeep q) ?_
      · rw [hpc]
        rintro _ ⟨⟩
      · rw [hpc]
        rintro _ ⟨⟩
      · intro head' hw
        cases hpc.symm.trans hw
  -- The last access of a call that found a message.
  | cleared head =>
      rw [hpc] at h
      obtain ⟨u, hu, rfl⟩ := Option.map_eq_some_iff.1 h
      obtain ⟨q, hq, rfl⟩ := onQueue_eq hu
      exact .found q hq ⟨head, hpc⟩ rfl

/-- Such a step keeps the invariant. -/
theorem Inv.insideStep (h : s.Inv) {last : Bool} {spins : Nat} (hthread : s.thread = .inside last spins)
    (hst : s.insideStep last spins = some t) : t.Inv := by
  have hfrom : s.thread.Calls last := by
    rw [hthread]
    exact .inside last spins
  have htaken : s.taken = s.queue.history.dequeued := taken_eq (by rw [hthread]; rfl)
  have hqueue : ∀ {q : State ι}, Logger.step s.queue .consume = some q → Logger.Inv q :=
    fun hq => h.queue.step (a := .consume) trivial hq
  cases insideStep_cases hthread hst with
  | access q n hq hpc ht hwaiting =>
      subst ht
      apply h.within hfrom (.inside last n) (hqueue hq) hpc
      rw [htaken]
      cases (consume_side hq).2 with
      | empty head _ _ hidle => exact absurd hidle hpc
      | going _ hdequeued => exact hdequeued
      | taken head _ hidle => exact absurd hidle hpc
  | empty q hq hpc hempty ht =>
      subst ht
      apply h.within hfrom (.behind last) (hqueue hq) (placed_behind hpc)
      rw [htaken, taken_eq (LoggerPc.behind_holding last)]
      obtain ⟨head, hread⟩ := hempty
      cases (consume_side hq).2 with
      | empty _ _ _ _ hdequeued => exact hdequeued
      | going hnext => exact absurd hpc hnext.ne.1
      | taken head' hcleared => cases hread.symm.trans hcleared
  | found q hq hpc ht =>
      subst ht
      obtain ⟨head, hcleared⟩ := hpc
      cases (consume_side hq).2 with
      | empty head' hread => cases hcleared.symm.trans hread
      | going hnext => exact absurd hcleared (hnext.ne.2 head)
      | taken head' _ hidle hout hdequeued =>
          apply h.within hfrom (.writing last) (hqueue hq)
          · refine ⟨hidle, ?_⟩
            show q.history.dequeued.getLast? = some q.consumer.out
            rw [hdequeued, hout, List.getLast?_concat]
          · rw [htaken]
            show q.history.dequeued.dropLast = _
            rw [hdequeued, List.dropLast_concat]
  | spin hpc hready hspins ht =>
      subst ht
      obtain ⟨head, hwait⟩ := hpc
      apply h.within hfrom (.inside last (spins + 1)) h.queue
      · show s.queue.consumer.pc ≠ .idle
        rw [hwait]
        rintro ⟨⟩
      · exact htaken.symm
  | look hpc hready hspins ht =>
      subst ht
      exact h.within hfrom (.checkRun last) h.queue hpc htaken.symm

omit [DecidableEq ι] in
/-- The thread gives up a message that does not come. -/
theorem Inv.giveUp (h : s.Inv) {last : Bool} (hthread : s.thread = .checkReady last) :
    (s.giveUp last).Inv := by
  have hplaced := h.placed
  unfold Placed at hplaced
  rw [hthread] at hplaced
  obtain ⟨head, hwait⟩ := hplaced
  have hfrom : s.thread.Calls last := by
    rw [hthread]
    exact .checkReady last
  apply h.within hfrom (.behind last)
  · apply h.queue.ofRead
    · rw [hwait]
      rintro _ ⟨⟩
    · trivial
  · exact placed_behind rfl
  · rw [taken_eq (LoggerPc.behind_holding last), taken_eq (by rw [hthread]; rfl)]

omit [DecidableEq ι] in
/-- Back into the loop after a flush that may be left out. -/
theorem Inv.maybeFlush (h : s.Inv) {p : Prop} [Decidable p] {pc : LoggerPc}
    (hplaced : (s.goto pc).Placed) (hholding : pc.holding = s.thread.holding)
    (hlooping : ¬ p → s.thread.looping = true ∧ s.sinceFlush ≤ pc.allowance)
    (hflushing : ¬ p → pc.flushing = true → s.flushed = s.written) (hending : pc.ending = false)
    (hpc : pc ≠ .absent) (hthread : s.thread ≠ .absent) :
    (Logging.goto pc (if p then s.flush else s)).Inv := by
  have hjoining : pc.ending = true → s.joining = true := by
    rw [hending]
    rintro ⟨⟩
  split
  · exact h.flush hplaced hholding hjoining hpc hthread
  · rename_i hp
    exact h.goto hplaced hholding (fun _ => hlooping hp) (hflushing hp) hjoining hpc hthread

/-- A step of the thread keeps the invariant. -/
theorem Inv.loggerStep (h : s.Inv) (hst : s.loggerStep = some t) : t.Inv := by
  have hplaced := h.placed
  have hlooping := h.near.looping
  have hthere : ∀ pc, s.thread = pc → pc ≠ .absent → s.thread ≠ .absent :=
    fun pc heq hne habs => hne (heq.symm.trans habs)
  unfold Placed at hplaced
  unfold Logging.loggerStep at hst
  cases hthread : s.thread with
  | absent =>
      rw [hthread] at hst
      cases hst
  | returned =>
      rw [hthread] at hst
      cases hst
  -- The top of the loop looks at `run`.
  | top =>
      rw [hthread] at hst hplaced hlooping
      cases hst
      refine h.goto hplaced (by rw [hthread]; rfl) (fun _ => ?_) ?_ (fun he => ?_) ?_ ?_
      · exact ⟨by rw [hthread]; rfl, (hlooping rfl).2⟩
      · rintro ⟨⟩
      · -- The second loop begins because `log_shutdown` was called.
        apply h.controlled.stopped
        · simpa [LoggerPc.ending] using he
        · exact hthere _ hthread (by rintro ⟨⟩)
      · rintro ⟨⟩
      · exact hthere _ hthread (by rintro ⟨⟩)
  -- The call of `log_dequeue` begins.
  | calling last =>
      rw [hthread] at hst
      obtain ⟨u, hu, rfl⟩ := Option.map_eq_some_iff.1 hst
      obtain ⟨q, hq, rfl⟩ := onQueue_eq hu
      obtain ⟨hside, hpc, hout, hdequeued⟩ := dequeue_side hq
      have hfrom : s.thread.Calls last := by
        rw [hthread]
        exact .calling last
      apply h.within hfrom (.inside last 0) (h.queue.step (a := .dequeue _) trivial hq)
      · show q.consumer.pc ≠ .idle
        rw [hpc]
        rintro ⟨⟩
      · exact hdequeued.trans (taken_eq (by rw [hthread]; rfl)).symm
  | inside last spins =>
      rw [hthread] at hst
      exact h.insideStep hthread hst
  | checkRun last =>
      rw [hthread] at hst hplaced
      cases hst
      obtain ⟨head, hwait⟩ := hplaced
      have hfrom : s.thread.Calls last := by
        rw [hthread]
        exact .checkRun last
      have htaken : s.taken = s.queue.history.dequeued := taken_eq (by rw [hthread]; rfl)
      -- While `run` is set the thread spins on; after it was cleared it looks at the slot once
      -- more.
      split
      · apply h.within hfrom (.inside last 1) h.queue
        · show s.queue.consumer.pc ≠ .idle
          rw [hwait]
          rintro ⟨⟩
        · exact htaken.symm
      · exact h.within hfrom (.checkReady last) h.queue ⟨head, hwait⟩ htaken.symm
  | checkReady last =>
      rw [hthread] at hst hplaced
      obtain ⟨head, hwait⟩ := hplaced
      have hfrom : s.thread.Calls last := by
        rw [hthread]
        exact .checkReady last
      cases hst
      split
      · apply h.within hfrom (.inside last 1) h.queue
        · show s.queue.consumer.pc ≠ .idle
          rw [hwait]
          rintro ⟨⟩
        · exact (taken_eq (by rw [hthread]; rfl)).symm
      -- It is still not there, and the call gives up.
      · exact h.giveUp hthread
  | writing last =>
      rw [hthread] at hst
      cases hst
      exact h.write hthread
  | wrote =>
      rw [hthread] at hst hplaced hlooping
      cases hst
      refine h.maybeFlush hplaced (by rw [hthread]; rfl) (fun hless => ?_) ?_ rfl ?_ ?_
      · refine ⟨by rw [hthread]; rfl, ?_⟩
        show s.sinceFlush ≤ LOG_FLUSH_EVERY - 1
        omega
      · rintro - ⟨⟩
      · rintro ⟨⟩
      · exact hthere _ hthread (by rintro ⟨⟩)
  | resting =>
      rw [hthread] at hst hplaced hlooping
      cases hst
      obtain ⟨hflushed, hle⟩ := hlooping rfl
      refine h.maybeFlush hplaced (by rw [hthread]; rfl) (fun _ => ?_) (fun hzero _ => ?_) rfl ?_ ?_
      · exact ⟨by rw [hthread]; rfl, hle⟩
      · -- Nothing was written since the last flush.
        have hzero : s.sinceFlush = 0 := by omega
        rw [hflushed, hzero, Nat.sub_zero, List.take_length]
        exact h.written.symm
      · rintro ⟨⟩
      · exact hthere _ hthread (by rintro ⟨⟩)
  | sleeping =>
      rw [hthread] at hst hplaced hlooping
      cases hst
      refine h.goto hplaced (by rw [hthread]; rfl) (fun _ => ?_) ?_ ?_ ?_ ?_
      · exact ⟨by rw [hthread]; rfl, (hlooping rfl).2⟩
      · rintro ⟨⟩
      · rintro ⟨⟩
      · rintro ⟨⟩
      · exact hthere _ hthread (by rintro ⟨⟩)
  | closing =>
      rw [hthread] at hst hplaced
      cases hst
      refine h.flush hplaced (by rw [hthread]; rfl) (fun _ => ?_) ?_ ?_
      · apply h.controlled.ending
        rw [hthread]
        rfl
      · rintro ⟨⟩
      · exact hthere _ hthread (by rintro ⟨⟩)

/-- Before its claim, a call of `tiny_log` has been passed by fewer than `2 ^ 31` claims. -/
def Few (s : Logging ι) : LoggingAction ι → Prop
  | .produce i => FewClaims s.queue (.produce i)
  | _ => True

omit [DecidableEq ι] in
/-- `log_init` keeps the invariant. -/
theorem Inv.init (h : s.Inv) (created : Bool) (habsent : s.thread = .absent)
    (hjoining : s.joining = false) : Inv { s with
      run := true
      started := created
      thread := if created then .top else .absent
      sinceFlush := 0 } := by
  have hplaced := h.placed
  unfold Placed at hplaced
  rw [habsent] at hplaced
  have htaken : s.taken = s.queue.history.dequeued := taken_eq (by rw [habsent]; rfl)
  have hwritten : s.written = texts s.queue.history.dequeued := by
    rw [← htaken]
    exact h.written
  have hflushed : s.flushed = s.written := h.near.flushing (by rw [habsent]; rfl)
  have hno : s.joining ≠ true := by
    rw [hjoining]
    rintro ⟨⟩
  cases created with
  | false =>
      refine ⟨h.queue, hplaced, hwritten, ⟨h.near.le, ?_, fun _ => hflushed⟩,
        ⟨fun hj => absurd hj hno, ?_, ?_, ?_⟩⟩
      · rintro ⟨⟩
      · rintro ⟨⟩
      · rintro ⟨⟩
      · rintro ⟨⟩
  | true =>
      refine ⟨h.queue, hplaced, hwritten, ⟨h.near.le, fun _ => ⟨?_, Nat.zero_le _⟩, ?_⟩,
        ⟨fun hj => absurd hj hno, ?_, ?_, fun _ => ?_⟩⟩
      · show s.flushed = texts (s.queue.history.dequeued.take (s.queue.history.dequeued.length - 0))
        rw [Nat.sub_zero, List.take_length, hflushed]
        exact hwritten
      · rintro ⟨⟩
      · rintro ⟨⟩
      · rintro ⟨⟩
      · rintro ⟨⟩

omit [DecidableEq ι] in
/-- The join in `log_shutdown` keeps the invariant. -/
theorem Inv.join (h : s.Inv) (hreturned : s.thread = .returned) :
    Inv { s with started := false, joining := false, thread := .absent } := by
  have hplaced := h.placed
  unfold Placed at hplaced
  rw [hreturned] at hplaced
  have hwritten : s.written = texts s.queue.history.dequeued := by
    have htaken : s.taken = s.queue.history.dequeued := taken_eq (by rw [hreturned]; rfl)
    rw [← htaken]
    exact h.written
  have hflushed : s.flushed = s.written := h.near.flushing (by rw [hreturned]; rfl)
  refine ⟨h.queue, hplaced, hwritten, ⟨h.near.le, ?_, fun _ => hflushed⟩, ⟨?_, ?_, fun _ hne => ?_, ?_⟩⟩
  · rintro ⟨⟩
  · rintro ⟨⟩
  · rintro ⟨⟩
  · exact absurd rfl hne
  · rintro ⟨⟩

/-- The step lemma. -/
theorem Inv.step (h : s.Inv) {a : LoggingAction ι} (hfew : Few s a) (hst : s.step a = some t) :
    t.Inv := by
  cases a with
  | init created =>
      obtain ⟨⟨habsent, hjoining⟩, ht⟩ := Option.ite_none_right_eq_some.1 hst
      rw [← Option.some.inj ht]
      exact h.init created habsent hjoining
  | shutdown =>
      obtain ⟨hjoining, hst⟩ := Option.ite_none_left_eq_some.1 hst
      split at hst
      · rename_i hstarted
        cases hst
        refine ⟨h.queue, h.placed, h.written, ⟨h.near.le, h.near.looping, h.near.flushing⟩,
          ⟨fun _ => ⟨rfl, h.controlled.started hstarted⟩, fun _ => rfl, fun _ _ => rfl,
            h.controlled.started⟩⟩
      · cases hst
        exact h
  | join =>
      obtain ⟨⟨-, hreturned⟩, ht⟩ := Option.ite_none_right_eq_some.1 hst
      rw [← Option.some.inj ht]
      exact h.join hreturned
  | log i level text =>
      unfold Logging.step at hst
      cases hl : tinyLogEntry level text with
      | none =>
          simp only [hl] at hst
          cases hst
          exact h
      | some l =>
          simp only [hl] at hst
          obtain ⟨q, hq, rfl⟩ := onQueue_eq hst
          exact h.produced (h.queue.step (a := .enqueue i l) trivial hq) (enqueue_produced hq)
  | produce i =>
      obtain ⟨q, hq, rfl⟩ := onQueue_eq (a := .produce i) hst
      exact h.produced (h.queue.step (a := .produce i) hfew hq) (produce_produced hq)
  | logger => exact h.loggerStep hst

/-! ## What is written -/

/-- `stdout` has the first accepted messages, in the order in which they were accepted. While
the logger runs, at most `LOG_FLUSH_EVERY` of them are not flushed, and while it sleeps and
when it has returned all of them are. -/
structure Orderly (s : Logging ι) : Prop where
  le : s.taken.length ≤ s.queue.history.claimed.length
  written : s.written = texts (s.queue.history.claimed.take s.taken.length)
  flushed : s.flushed <+: s.written
  looping : s.thread.looping = true → ∃ n ≤ LOG_FLUSH_EVERY,
    s.flushed = texts (s.queue.history.claimed.take (s.taken.length - n))
  flushing : s.thread.flushing = true → s.flushed = s.written

omit [DecidableEq ι] in
/-- What the thread has taken was dequeued. -/
theorem taken_isPrefix (s : Logging ι) : s.taken <+: s.queue.history.dequeued := by
  unfold taken
  split
  · exact List.dropLast_prefix _
  · exact List.prefix_rfl

omit [DecidableEq ι] in
/-- The messages that were written are the first accepted ones. -/
theorem Inv.texts_take (h : s.Inv) (n : Nat) (hn : n ≤ s.taken.length) :
    texts (s.taken.take n) = texts (s.queue.history.claimed.take n) := by
  have hle := (taken_isPrefix s).length_le
  have htake : s.taken.take n = s.queue.history.dequeued.take n := by
    rw [List.prefix_iff_eq_take.1 (taken_isPrefix s), List.take_take, Nat.min_eq_left hn]
  rw [htake]
  apply texts_of_payload
  rw [List.map_take, h.queue.order, ← List.map_take, List.take_take, Nat.min_eq_left (by omega)]

omit [DecidableEq ι] in
/-- What was written are the first accepted messages, in order. -/
theorem Inv.orderly (h : s.Inv) : s.Orderly := by
  have hle := (taken_isPrefix s).length_le
  refine ⟨hle.trans h.queue.le, ?_, h.near.le, fun hl => ?_, h.near.flushing⟩
  · have htexts := h.texts_take s.taken.length (Nat.le_refl _)
    rw [List.take_length] at htexts
    exact h.written.trans htexts
  · obtain ⟨hflushed, hallow⟩ := h.near.looping hl
    refine ⟨s.sinceFlush, ?_, ?_⟩
    · apply hallow.trans
      cases s.thread with
      | wrote => exact Nat.le_refl _
      | _ => exact Nat.sub_le _ _
    · exact hflushed.trans (h.texts_take _ (Nat.sub_le _ _))

/-- In every run in which no call is passed by `2 ^ 31` claims, `stdout` has the accepted messages
in order. -/
theorem logging_writes (acts : List (LoggingAction ι))
    (h : AllSteps step Few (start ι) acts) : ∀ t ∈ runStates step (start ι) acts, t.Orderly := by
  intro t ht
  have hinv : t.Inv := AllSteps.invariant (fun s a s' hs hfew hst => hs.step hfew hst) (start_inv ι) h t ht
  exact hinv.orderly

instance Few.decidable (s : Logging ι) : ∀ a, Decidable (Few s a)
  | .init _ => isTrue trivial
  | .shutdown => isTrue trivial
  | .join => isTrue trivial
  | .log _ _ _ => isTrue trivial
  | .produce i => inferInstanceAs (Decidable (FewClaims s.queue (.produce i)))
  | .logger => isTrue trivial

/-- Two threads log at the same time. The second one claims first, and the logger waits for it
while the message of the first one is ready. -/
def twoLogs : List (LoggingAction (Fin 2)) :=
  let i : Fin 2 := ⟨0, Nat.zero_lt_two⟩
  let j : Fin 2 := ⟨1, Nat.one_lt_two⟩
  [.init true, .log i .info (some [104, 105]), .log j .error (some [111]), .produce i, .produce j,
    .produce j, .produce i, .produce j, .produce i, .logger, .logger, .logger] ++
    List.replicate 5 (.produce i) ++ [.logger, .produce j, .produce j]

/-- The logger writes both messages and sleeps. -/
theorem logging_writes_twoLogs :
    ∃ t ∈ runStates step (start (Fin 2)) (twoLogs ++ List.replicate 19 .logger),
      t.thread = .sleeping ∧ t.written = [111, 104, 105] ∧ t.Orderly := by
  obtain ⟨t, ht, hthread, hwritten⟩ := exists_of_run
    (p := fun t : Logging (Fin 2) => t.thread = .sleeping ∧ t.written = [111, 104, 105])
    (show (runTo step (start (Fin 2)) (twoLogs ++ List.replicate 19 .logger)).any _ = true by
      decide +kernel)
  exact ⟨t, ht, hthread, hwritten,
    logging_writes (twoLogs ++ List.replicate 19 .logger) (by decide +kernel) t ht⟩

end Logging

end TinyServer.Logger
