import Mathlib.Algebra.BigOperators.Group.Finset.Basic
import Mathlib.Algebra.Order.BigOperators.Group.Finset
import TinyServer.Queue.Ring

/-!
# Waking the workers (`worker.c`, `runtime.c`)

All workers wait on one eventfd. The accept thread queues a connection and then
notifies; `tiny_runtime_destroy` sets `stop` and then notifies; a worker that its
`epoll_wait` tells of the eventfd resets the counter for all of them. The queue is
taken as a FIFO here: its own steps are the subject of `TinyServer.Queue`.

`WakeMissed` are the states in which an idle worker sleeps through a connection or
the shutdown. A run stays out of them as long as no worker resets the counter at the
wrong time (`SafeDrain`).
-/

set_option autoImplicit false

namespace TinyServer.Runtime

open TinyServer.Queue TinyServer.Lib

/-! ## The threads -/

/-- `w->slot_count`, which is `TINY_CONNS_PER_WORKER`. -/
structure SlotCount where
  count : Nat
  one_le : 1 ≤ count

/-- The slots of the connection queue. -/
def TINY_QUEUE_SIZE : Nat := 1024

/-- A connection that waited longer in the queue is dropped. -/
def TINY_QUEUE_TIMEOUT_MS : Nat := 5000

/-- Where a worker stands in the loop of `tiny_worker_main`. -/
inductive WorkerPc where
  /-- The load of `stop` is next. -/
  | top
  /-- In the loop of `try_accept_one`. -/
  | accepting
  /-- `try_accept_one` returned 0; `epoll_wait` is next. -/
  | polling
  /-- In `epoll_wait`, with the timeout -1 if `forever`. -/
  | waiting (forever : Bool)
  /-- At the events of the batch; `wake` if the eventfd's is still to come. -/
  | events (wake : Bool)
  | exited
  deriving DecidableEq, Repr

/-- Where a worker stands, and how many slots are free and in use. -/
structure Worker where
  pc : WorkerPc
  freeTop : Nat
  nactive : Nat
  deriving DecidableEq, Repr

/-- `notifying` and `stopping`: the accept thread has queued a connection, and
`tiny_runtime_destroy` has set `stop`, and the notify that follows is not done. -/
structure State (ι : Type) where
  stop : Bool
  counter : Nat
  queue : List Connection
  notifying : Bool
  stopping : Bool
  workers : ι → Worker

/-- `now`, `added` and `closes` are the clock, the result of `epoll_ctl`, and whether
the slot closes again at once. -/
inductive Action (ι : Type) where
  | enqueue (c : Connection)
  | notify
  | setStop
  | notifyStop
  | loop (i : ι)
  | tryAccept (i : ι) (now : Nat) (added closes : Bool)
  | poll (i : ι)
  | wake (i : ι) (event : Bool)
  | interrupted (i : ι)
  | waitFails (i : ι)
  | drain (i : ι)
  | slotClose (i : ι)
  | endBatch (i : ι)

section Steps

variable {ι : Type} [DecidableEq ι] (slots : SlotCount)

/-- The worker `i` goes on. -/
def State.setWorker (s : State ι) (i : ι) (w : Worker) : State ι :=
  { s with workers := Function.update s.workers i w }

/-- A write of 1 to the eventfd, which does not let the counter reach `2 ^ 64 - 1`. -/
def State.runtimeNotify (s : State ι) : State ι :=
  { s with counter := min (s.counter + 1) (2 ^ 64 - 2) }

/-- A connection from the queue keeps a slot of the worker. -/
def keepsSlot (c : Connection) (now : Nat) (added closes : Bool) : Bool :=
  !(decide (c.fd < 0)) &&
    !(decide (c.acceptTime < now) && decide (TINY_QUEUE_TIMEOUT_MS < now - c.acceptTime)) &&
    added && !closes

/-- `try_accept_one`; where it returns 0 the worker goes on to `epoll_wait`. -/
def tryAcceptOne (s : State ι) (i : ι) (now : Nat) (added closes : Bool) : State ι :=
  let w := s.workers i
  if w.freeTop = 0 then s.setWorker i { w with pc := .polling }
  -- no connection in the queue
  else
    match s.queue with
    | [] => s.setWorker i { w with pc := .polling }
    | c :: queue =>
        let s := { s with queue := queue }
        if keepsSlot c now added closes then
          s.setWorker i { w with freeTop := w.freeTop - 1, nactive := w.nactive + 1 }
        -- the connection was closed, and the slot stays free
        else s

/-- The end of `tiny_worker_main`: every slot is closed. -/
def Worker.exit (w : Worker) : Worker := { w with pc := .exited, freeTop := slots.count, nactive := 0 }

/-- One step. `epoll_wait` with the timeout -1 returns only for the eventfd; with a
timeout it returns at any time, with or without the event of a counter that is not 0. -/
def step (s : State ι) : Action ι → Option (State ι)
  | .enqueue c =>
      if s.notifying then none
      -- a full queue: the connection is refused, and nobody is woken
      else if TINY_QUEUE_SIZE ≤ s.queue.length then some s
      else some { s with queue := s.queue ++ [c], notifying := true }
  | .notify => if s.notifying then some { s.runtimeNotify with notifying := false } else none
  | .setStop => if s.stopping then none else some { s with stop := true, stopping := true }
  | .notifyStop => if s.stopping then some { s.runtimeNotify with stopping := false } else none
  | .loop i =>
      let w := s.workers i
      match w.pc with
      | .top => some (s.setWorker i (if s.stop then w.exit slots else { w with pc := .accepting }))
      | _ => none
  | .tryAccept i now added closes =>
      match (s.workers i).pc with
      | .accepting => some (tryAcceptOne s i now added closes)
      | _ => none
  | .poll i =>
      let w := s.workers i
      match w.pc with
      -- an idle worker waits without a timeout
      | .polling => some (s.setWorker i { w with pc := .waiting (w.nactive == 0) })
      | _ => none
  | .wake i event =>
      let w := s.workers i
      match w.pc with
      | .waiting forever =>
          -- a wait without a timeout ends only with an event
          if (event = true → s.counter ≠ 0) ∧ (event = false → forever = false) then
            some (s.setWorker i { w with pc := .events event })
          else none
      | _ => none
  | .interrupted i =>
      let w := s.workers i
      match w.pc with
      | .waiting false => some (s.setWorker i { w with pc := .top })
      | _ => none
  | .waitFails i =>
      let w := s.workers i
      match w.pc with
      | .waiting false => some (s.setWorker i (w.exit slots))
      | _ => none
  | .drain i =>
      let w := s.workers i
      match w.pc with
      -- the read of the eventfd takes the counter for every worker
      | .events true => some { s.setWorker i { w with pc := .events false } with counter := 0 }
      | _ => none
  | .slotClose i =>
      let w := s.workers i
      match w.pc with
      | .events _ =>
          if w.nactive = 0 then none
          else some (s.setWorker i { w with freeTop := w.freeTop + 1, nactive := w.nactive - 1 })
      | _ => none
  | .endBatch i =>
      let w := s.workers i
      match w.pc with
      | .events false => some (s.setWorker i { w with pc := .top })
      | _ => none

/-- The workers have started, with every slot free. -/
def State.start : State ι where
  stop := false
  counter := 0
  queue := []
  notifying := false
  stopping := false
  workers := fun _ => ⟨.top, slots.count, 0⟩

end Steps

/-! ## Missed wake-ups -/

namespace State

variable {ι : Type}

/-- The counter is 0, and every notify that was started is done. -/
def Quiet (s : State ι) : Prop := s.counter = 0 ∧ s.notifying = false ∧ s.stopping = false

end State

/-- Outside `epoll_wait`, and not about to enter it. -/
def Worker.outside (w : Worker) : Bool :=
  match w.pc with
  | .top => true
  | .accepting => true
  | .events _ => true
  | _ => false

/-- An idle worker sleeps in `epoll_wait(-1)` through a queued connection that no
running worker has a slot for, or through the shutdown. -/
def WakeMissed {ι : Type} (s : State ι) : Prop :=
  s.Quiet ∧ ∃ i, (s.workers i).pc = .waiting true ∧ (s.workers i).nactive = 0 ∧
    ((s.queue ≠ [] ∧ ∀ j, 0 < (s.workers j).freeTop →
      (∃ forever, (s.workers j).pc = .waiting forever) ∨ (s.workers j).pc = .exited) ∨
      s.stop = true)

/-- Without an active slot, in `epoll_wait` or about to enter it. -/
def Worker.Sleeps (w : Worker) : Prop :=
  w.nactive = 0 ∧ (w.pc = .polling ∨ w.pc = .waiting true)

/-- Without an active slot, and past the load of `stop`. -/
def Worker.PastStop (w : Worker) : Prop := w.nactive = 0 ∧ (w.pc = .accepting ∨ w.Sleeps)

instance (w : Worker) : Decidable w.Sleeps := inferInstanceAs (Decidable (_ ∧ _))

instance (w : Worker) : Decidable w.PastStop := inferInstanceAs (Decidable (_ ∧ _))

section Updates

variable {ι : Type} [DecidableEq ι] {s : State ι} {i : ι}

theorem setWorker_self (w : Worker) : (s.setWorker i w).workers i = w := Function.update_self _ _ _

theorem setWorker_ne {j : ι} (w : Worker) (h : j ≠ i) : (s.setWorker i w).workers j = s.workers j :=
  Function.update_of_ne h _ _

end Updates

/-- After a notify the eventfd is readable. -/
theorem runtimeNotify_counter {ι : Type} (s : State ι) : s.runtimeNotify.counter ≠ 0 := by
  unfold State.runtimeNotify
  simp only
  omega

section Workers

variable {ι : Type} [Fintype ι]

/-- What a worker adds to the free slots outside `epoll_wait`. -/
def Worker.share (w : Worker) : Nat := if w.outside then w.freeTop else 0

/-- The free slots of the workers outside `epoll_wait`. -/
def State.room (s : State ι) : Nat := ∑ i, (s.workers i).share

/-- The counter may be reset: a notify is on its way, or no idle worker needs it for the
shutdown, and none for the queue. -/
def State.SafeDrain (s : State ι) : Prop :=
  s.notifying = true ∨ s.stopping = true ∨
    ((s.stop = true → ∀ i, ¬ (s.workers i).PastStop) ∧
      ((∃ i, (s.workers i).Sleeps) → s.queue.length ≤ s.room))

instance (s : State ι) : Decidable s.SafeDrain := inferInstanceAs (Decidable (_ ∨ _ ∨ _))

/-- The step resets the counter. -/
def Action.isDrain : Action ι → Bool
  | .drain _ => true
  | _ => false

/-- The step resets the counter at a time when it may be reset, or does not reset it. -/
def DrainsSafely (s : State ι) (a : Action ι) : Prop := a.isDrain = true → s.SafeDrain

instance (s : State ι) (a : Action ι) : Decidable (DrainsSafely s a) :=
  inferInstanceAs (Decidable (_ → _))

/-! ## The invariant -/

theorem share_eq_zero {w : Worker} (h : w.outside = false) : w.share = 0 := by
  unfold Worker.share
  rw [h, if_neg Bool.false_ne_true]

variable {slots : SlotCount} {s : State ι}

/-- Once the counter is 0 with no notify on its way, nobody needs it. -/
structure WakeInv (slots : SlotCount) (s : State ι) : Prop where
  slots : ∀ i, (s.workers i).freeTop + (s.workers i).nactive = slots.count
  stopped : s.Quiet → s.stop = true → ∀ i, ¬ (s.workers i).PastStop
  queued : s.Quiet → (∃ i, (s.workers i).Sleeps) → s.queue.length ≤ s.room

/-- The invariant holds before the first wake. -/
theorem WakeInv.start : WakeInv slots (State.start slots : State ι) := by
  constructor
  case slots => exact fun _ => rfl
  case stopped => exact fun _ h => nomatch h
  case queued => exact fun _ _ => Nat.zero_le _

/-- A state with a notify on its way, or a counter that is not 0. -/
theorem WakeInv.of_not_quiet {t : State ι} (hi : WakeInv slots s) (hworkers : t.workers = s.workers)
    (h : ¬ t.Quiet) : WakeInv slots t := by
  constructor
  case slots =>
    rw [hworkers]
    exact hi.slots
  case stopped => exact fun hq => absurd hq h
  case queued => exact fun hq => absurd hq h

variable [DecidableEq ι] {i : ι}

/-- A sum after one of its terms lost at most `d`. -/
theorem sum_le_sum_add {f g : ι → Nat} {d : Nat} (hne : ∀ j, j ≠ i → f j = g j)
    (h : f i ≤ g i + d) : ∑ j, f j ≤ ∑ j, g j + d := by
  have hrest : ∑ j ∈ Finset.univ.erase i, f j = ∑ j ∈ Finset.univ.erase i, g j :=
    Finset.sum_congr rfl fun j hj => hne j (Finset.ne_of_mem_erase hj)
  have hf := Finset.add_sum_erase Finset.univ f (Finset.mem_univ i)
  have hg := Finset.add_sum_erase Finset.univ g (Finset.mem_univ i)
  omega

/-- The room after one worker changed. -/
theorem room_setWorker {w : Worker} {d : Nat} (h : (s.workers i).share ≤ w.share + d) :
    s.room ≤ (s.setWorker i w).room + d := by
  apply sum_le_sum_add (i := i)
  · intro j hj
    rw [setWorker_ne w hj]
  · rw [setWorker_self]
    exact h

/-- A step of one worker that leaves the rest alone: it does not lose free slots outside
`epoll_wait`, and goes to sleep only on an empty queue. -/
theorem WakeInv.setWorker {w : Worker} (hi : WakeInv slots s)
    (hslots : w.freeTop + w.nactive = slots.count)
    (hpast : w.PastStop → (s.workers i).PastStop ∨ s.stop = false)
    (hsleeps : w.Sleeps → (s.workers i).Sleeps ∨ s.queue = [])
    (hshare : (s.workers i).share ≤ w.share ∨ s.stop = true ∨ s.queue = []) :
    WakeInv slots (s.setWorker i w) := by
  constructor
  case slots =>
    intro j
    by_cases hj : j = i
    · rw [hj, setWorker_self]
      exact hslots
    · rw [setWorker_ne w hj]
      exact hi.slots j
  case stopped =>
    intro hq hstop j
    by_cases hj : j = i
    · rw [hj, setWorker_self]
      intro h
      rcases hpast h with h | h
      · exact hi.stopped hq hstop i h
      · have hs : s.stop = true := hstop
        rw [h] at hs
        cases hs
    · rw [setWorker_ne w hj]
      exact hi.stopped hq hstop j
  case queued =>
    rintro hq ⟨j, hj⟩
    show s.queue.length ≤ _
    by_cases hnil : s.queue = []
    · rw [hnil]
      exact Nat.zero_le _
    -- Somebody slept already before the step.
    have hslept : ∃ j, (s.workers j).Sleeps := by
      by_cases hji : j = i
      · rw [hji, setWorker_self] at hj
        exact ⟨i, (hsleeps hj).resolve_right hnil⟩
      · rw [setWorker_ne w hji] at hj
        exact ⟨j, hj⟩
    rcases hshare with hshare | hstop | h
    · exact (hi.queued hq hslept).trans (room_setWorker (d := 0) hshare)
    · obtain ⟨k, hk⟩ := hslept
      exact absurd ⟨hk.1, Or.inr hk⟩ (hi.stopped hq hstop k)
    · exact absurd h hnil

/-- A worker that is awake after the step. -/
theorem WakeInv.awake {w : Worker} (hi : WakeInv slots s)
    (hslots : w.freeTop + w.nactive = slots.count)
    (hpc : w.pc = .top ∨ w.pc = .exited ∨ ∃ wake, w.pc = .events wake)
    (hshare : (s.workers i).share ≤ w.share ∨ s.stop = true) : WakeInv slots (s.setWorker i w) := by
  have hpast : ¬ w.PastStop := by
    rintro ⟨-, h⟩
    rcases hpc with hpc | hpc | ⟨wake, hpc⟩ <;> rw [Worker.Sleeps, hpc] at h <;>
      rcases h with h | ⟨-, h | h⟩ <;> cases h
  refine hi.setWorker hslots ?_ ?_ (hshare.imp_right Or.inl)
  · exact fun h => absurd h hpast
  · exact fun h => absurd ⟨h.1, Or.inr h⟩ hpast

omit [DecidableEq ι] in
/-- A connection left the queue. -/
theorem WakeInv.dequeued {c : Connection} {queue : List Connection} (hi : WakeInv slots s)
    (hqueue : s.queue = c :: queue) : WakeInv slots { s with queue := queue } := by
  constructor
  case slots => exact hi.slots
  case stopped => exact hi.stopped
  case queued =>
    intro hq hsleeps
    have h := hi.queued hq hsleeps
    rw [hqueue] at h
    exact (Nat.le_succ _).trans h

/-- A connection left the queue and took a slot of the worker. -/
theorem WakeInv.accepted {c : Connection} {queue : List Connection} {w : Worker}
    (hi : WakeInv slots s) (hqueue : s.queue = c :: queue)
    (hslots : w.freeTop + w.nactive = slots.count) (hactive : w.nactive ≠ 0)
    (hshare : (s.workers i).share ≤ w.share + 1) :
    WakeInv slots (State.setWorker { s with queue := queue } i w) := by
  have hself := setWorker_self (s := { s with queue := queue }) (i := i) w
  have hne := fun j (h : j ≠ i) => setWorker_ne (s := { s with queue := queue }) w h
  constructor
  case slots =>
    intro j
    by_cases hj : j = i
    · rw [hj, hself]
      exact hslots
    · rw [hne j hj]
      exact hi.slots j
  case stopped =>
    intro hq hstop j
    by_cases hj : j = i
    · rw [hj, hself]
      exact fun h => hactive h.1
    · rw [hne j hj]
      exact hi.stopped hq hstop j
  case queued =>
    rintro hq ⟨j, hj⟩
    have hji : j ≠ i := by
      rintro rfl
      rw [hself] at hj
      exact hactive hj.1
    rw [hne j hji] at hj
    have h := hi.queued hq ⟨j, hj⟩
    rw [hqueue] at h
    have hroom := room_setWorker (s := { s with queue := queue }) hshare
    exact Nat.le_of_succ_le_succ (h.trans hroom)

/-- `try_accept_one`: the connection it takes out of the queue takes at most one slot. -/
theorem WakeInv.tryAccept {now : Nat} {added closes : Bool} (hi : WakeInv slots s)
    (hpc : (s.workers i).pc = .accepting) :
    WakeInv slots (tryAcceptOne s i now added closes) := by
  have hshare : (s.workers i).share = (s.workers i).freeTop := by
    unfold Worker.share Worker.outside
    rw [hpc]
    rfl
  have hcount := hi.slots i
  have hpos := slots.one_le
  unfold tryAcceptOne
  simp only
  split
  · rename_i hfull
    -- A worker without a free slot has an active one.
    have hbusy : (s.workers i).nactive ≠ 0 := by omega
    refine hi.setWorker hcount ?_ ?_ ?_
    · exact fun h => absurd h.1 hbusy
    · exact fun h => absurd h.1 hbusy
    · left
      rw [hshare, hfull]
      exact Nat.zero_le _
  rename_i hfree
  split
  · rename_i hnil
    refine hi.setWorker hcount ?_ ?_ ?_
    · exact fun h => Or.inl ⟨h.1, Or.inl hpc⟩
    · exact fun _ => Or.inr hnil
    · exact Or.inr (Or.inr hnil)
  · rename_i c queue hqueue
    split
    · refine hi.accepted hqueue ?_ (Nat.succ_ne_zero _) ?_
      · show (s.workers i).freeTop - 1 + ((s.workers i).nactive + 1) = slots.count
        omega
      · have hnew : Worker.share { s.workers i with
            freeTop := (s.workers i).freeTop - 1
            nactive := (s.workers i).nactive + 1 } = (s.workers i).freeTop - 1 := by
          unfold Worker.share Worker.outside
          simp only [hpc, if_true]
        rw [hnew, hshare]
        omega
    · exact hi.dequeued hqueue

/-- Resetting the counter at a time when it may be reset. -/
theorem WakeInv.drain (hi : WakeInv slots s) (hpc : (s.workers i).pc = .events true)
    (hsafe : s.SafeDrain) : WakeInv slots
      { s.setWorker i { s.workers i with pc := .events false } with counter := 0 } := by
  -- The worker is awake before and after, with the same free slots.
  have hself := setWorker_self (s := s) (i := i) { s.workers i with pc := .events false }
  have hne := fun j (h : j ≠ i) => setWorker_ne (s := s) { s.workers i with pc := .events false } h
  have hpast : ∀ j, ((s.setWorker i { s.workers i with pc := .events false }).workers j).PastStop →
      (s.workers j).PastStop := by
    intro j h
    by_cases hj : j = i
    · rw [hj, hself] at h
      rcases h.2 with h | ⟨-, h | h⟩ <;> cases h
    · rw [hne j hj] at h
      exact h
  constructor
  case slots =>
    intro j
    by_cases hj : j = i
    · show ((s.setWorker i _).workers j).freeTop + _ = _
      rw [hj, hself]
      exact hi.slots i
    · show ((s.setWorker i _).workers j).freeTop + ((s.setWorker i _).workers j).nactive = _
      rw [hne j hj]
      exact hi.slots j
  case stopped =>
    rintro ⟨-, hnotify, hstopping⟩ hstop j hj
    rcases hsafe with h | h | ⟨h, -⟩
    · exact absurd (hnotify.symm.trans h) nofun
    · exact absurd (hstopping.symm.trans h) nofun
    · exact h hstop j (hpast j hj)
  case queued =>
    rintro ⟨-, hnotify, hstopping⟩ ⟨j, hj⟩
    rcases hsafe with h | h | ⟨-, h⟩
    · exact absurd (hnotify.symm.trans h) nofun
    · exact absurd (hstopping.symm.trans h) nofun
    · have hsleeps : ∃ k, (s.workers k).Sleeps := by
        refine ⟨j, ?_⟩
        have hj' : ((s.setWorker i { s.workers i with pc := .events false }).workers j).Sleeps := hj
        by_cases hji : j = i
        · rw [hji, hself] at hj'
          rcases hj'.2 with h | h <;> cases h
        · rw [hne j hji] at hj'
          exact hj'
      refine (h hsleeps).trans (room_setWorker (d := 0) ?_)
      unfold Worker.share Worker.outside
      rw [hpc]
      exact le_rfl

/-- A worker at the top of its loop leaves for the shutdown, or goes on to accept. -/
theorem WakeInv.loop (hi : WakeInv slots s) (hpc : (s.workers i).pc = .top) :
    WakeInv slots (s.setWorker i
      (if s.stop then (s.workers i).exit slots else { s.workers i with pc := .accepting })) := by
  split
  · rename_i hstop
    exact hi.awake rfl (Or.inr (Or.inl rfl)) (Or.inr hstop)
  · rename_i hstop
    refine hi.setWorker (hi.slots i) ?_ ?_ ?_
    · exact fun _ => Or.inr (by simpa using hstop)
    · rintro ⟨-, h | h⟩ <;> cases h
    · left
      unfold Worker.share Worker.outside
      rw [hpc]

/-- A worker that is about to sleep goes to sleep. -/
theorem WakeInv.poll (hi : WakeInv slots s) (hpc : (s.workers i).pc = .polling) (forever : Bool) :
    WakeInv slots (s.setWorker i { s.workers i with pc := .waiting forever }) := by
  refine hi.setWorker (hi.slots i) ?_ ?_ ?_
  · exact fun h => Or.inl ⟨h.1, Or.inr ⟨h.1, Or.inl hpc⟩⟩
  · exact fun h => Or.inl ⟨h.1, Or.inl hpc⟩
  · left
    rw [share_eq_zero (by rw [Worker.outside, hpc])]
    exact Nat.zero_le _

/-- A worker comes out of `epoll_wait`. -/
theorem WakeInv.returned {w : Worker} {forever : Bool} (hi : WakeInv slots s)
    (hpc : (s.workers i).pc = .waiting forever) (hslots : w.freeTop + w.nactive = slots.count)
    (hw : w.pc = .top ∨ w.pc = .exited ∨ ∃ wake, w.pc = .events wake) :
    WakeInv slots (s.setWorker i w) := by
  refine hi.awake hslots hw (Or.inl ?_)
  rw [share_eq_zero (by rw [Worker.outside, hpc])]
  exact Nat.zero_le _

/-- A handler closes its slot. -/
theorem WakeInv.slotClose {wake : Bool} (hi : WakeInv slots s) (hpc : (s.workers i).pc = .events wake)
    (hactive : (s.workers i).nactive ≠ 0) : WakeInv slots (s.setWorker i { s.workers i with
      freeTop := (s.workers i).freeTop + 1
      nactive := (s.workers i).nactive - 1 }) := by
  refine hi.awake ?_ (Or.inr (Or.inr ⟨_, hpc⟩)) (Or.inl ?_)
  · have hcount := hi.slots i
    show (s.workers i).freeTop + 1 + ((s.workers i).nactive - 1) = slots.count
    omega
  · unfold Worker.share Worker.outside
    simp only [hpc]
    exact Nat.le_succ _

/-- The events of a batch are handled. -/
theorem WakeInv.endBatch (hi : WakeInv slots s) (hpc : (s.workers i).pc = .events false) :
    WakeInv slots (s.setWorker i { s.workers i with pc := .top }) := by
  refine hi.awake (hi.slots i) (Or.inl rfl) (Or.inl ?_)
  unfold Worker.share Worker.outside
  rw [hpc]

/-- The step lemma. -/
theorem WakeInv.step {t : State ι} {a : Action ι} (hi : WakeInv slots s) (hsafe : DrainsSafely s a)
    (h : Runtime.step slots s a = some t) : WakeInv slots t := by
  cases a with
  -- A push with the write to the eventfd still to come: the producer is not quiet.
  | enqueue c =>
      rw [Runtime.step] at h
      split at h
      · cases h
      split at h
      · rw [← Option.some.inj h]
        exact hi
      · rw [← Option.some.inj h]
        exact hi.of_not_quiet rfl fun hq => nomatch hq.2.1
  | notify =>
      rw [Runtime.step] at h
      split at h
      · rw [← Option.some.inj h]
        exact hi.of_not_quiet rfl fun hq => runtimeNotify_counter s hq.1
      · cases h
  -- The same for `stop`.
  | setStop =>
      rw [Runtime.step] at h
      split at h
      · cases h
      · rw [← Option.some.inj h]
        exact hi.of_not_quiet rfl fun hq => nomatch hq.2.2
  | notifyStop =>
      rw [Runtime.step] at h
      split at h
      · rw [← Option.some.inj h]
        exact hi.of_not_quiet rfl fun hq => runtimeNotify_counter s hq.1
      · cases h
  | loop i =>
      rw [Runtime.step] at h
      split at h
      · rename_i hpc
        rw [← Option.some.inj h]
        exact hi.loop hpc
      · cases h
  | tryAccept i now added closes =>
      rw [Runtime.step] at h
      split at h
      · rename_i hpc
        rw [← Option.some.inj h]
        exact hi.tryAccept hpc
      · cases h
  | poll i =>
      rw [Runtime.step] at h
      split at h
      · rename_i hpc
        rw [← Option.some.inj h]
        exact hi.poll hpc _
      · cases h
  | wake i event =>
      rw [Runtime.step] at h
      split at h
      · rename_i hpc
        split at h
        · rw [← Option.some.inj h]
          exact hi.returned hpc (hi.slots i) (Or.inr (Or.inr ⟨event, rfl⟩))
        · cases h
      · cases h
  | interrupted i =>
      rw [Runtime.step] at h
      split at h
      · rename_i hpc
        rw [← Option.some.inj h]
        exact hi.returned hpc (hi.slots i) (Or.inl rfl)
      · cases h
  | waitFails i =>
      rw [Runtime.step] at h
      split at h
      · rename_i hpc
        rw [← Option.some.inj h]
        exact hi.returned hpc rfl (Or.inr (Or.inl rfl))
      · cases h
  -- The drain: the condition is that it leaves nothing behind.
  | drain i =>
      rw [Runtime.step] at h
      split at h
      · rename_i hpc
        rw [← Option.some.inj h]
        exact hi.drain hpc (hsafe rfl)
      · cases h
  | slotClose i =>
      rw [Runtime.step] at h
      split at h
      · rename_i hpc
        split at h
        · cases h
        · rename_i hactive
          rw [← Option.some.inj h]
          exact hi.slotClose hpc hactive
      · cases h
  | endBatch i =>
      rw [Runtime.step] at h
      split at h
      · rename_i hpc
        rw [← Option.some.inj h]
        exact hi.endBatch hpc
      · cases h

omit [DecidableEq ι] in
/-- In the invariant no wake-up is missed. -/
theorem WakeInv.not_missed (hi : WakeInv slots s) : ¬ WakeMissed s := by
  rintro ⟨hq, i, hpc, hidle, hmissed⟩
  have hsleeps : (s.workers i).Sleeps := ⟨hidle, Or.inr hpc⟩
  rcases hmissed with ⟨hne, hnobody⟩ | hstop
  · have hroom := (List.length_pos_iff.2 hne).trans_le (hi.queued hq ⟨i, hsleeps⟩)
    -- Somebody outside `epoll_wait` has a free slot.
    unfold State.room at hroom
    obtain ⟨j, -, hj⟩ := Finset.exists_ne_zero_of_sum_ne_zero hroom.ne'
    unfold Worker.share at hj
    split at hj
    · rename_i hout
      rcases hnobody j (Nat.pos_of_ne_zero hj) with ⟨forever, hw⟩ | hw
      · rw [Worker.outside, hw] at hout
        cases hout
      · rw [Worker.outside, hw] at hout
        cases hout
    · exact hj rfl
  · exact hi.stopped hq hstop i ⟨hidle, Or.inr hsleeps⟩

/-- For any number of workers: no wake-up is missed in a run that resets the counter only
when it may be reset. -/
theorem wakes_noticed (slots : SlotCount) (as : List (Action ι))
    (hsafe : AllSteps (Runtime.step slots) DrainsSafely (State.start slots) as) :
    ∀ s ∈ runStates (Runtime.step slots) (State.start slots) as, ¬ WakeMissed s := by
  intro s hs
  have hi : WakeInv slots s :=
    AllSteps.invariant (fun _ _ _ hi hgood hstep => hi.step hgood hstep) WakeInv.start hsafe s hs
  exact hi.not_missed

end Workers

/-- Two workers that go to sleep. -/
def twoAsleep : List (Action (Fin 2)) :=
  let i : Fin 2 := ⟨0, Nat.zero_lt_two⟩
  let j : Fin 2 := ⟨1, Nat.one_lt_two⟩
  [.loop i, .tryAccept i 0 true false, .poll i, .loop j, .tryAccept j 0 true false, .poll j]

/-- The slots of a worker. -/
def connsPerWorker : SlotCount := ⟨128, by decide⟩

/-- One of them takes the connection that both were woken for. -/
theorem wakes_noticed_two :
    AllSteps (step connsPerWorker) DrainsSafely (State.start connsPerWorker)
        (twoAsleep ++ [.enqueue ⟨0, (0, 0), 5, 0, 1, false⟩, .notify, .wake 0 true, .drain 0,
          .endBatch 0, .loop 0, .tryAccept 0 0 true false]) ∧
      ∀ s ∈ runStates (step connsPerWorker) (State.start connsPerWorker)
        (twoAsleep ++ [.enqueue ⟨0, (0, 0), 5, 0, 1, false⟩, .notify, .wake 0 true, .drain 0,
          .endBatch 0, .loop 0, .tryAccept 0 0 true false]),
        ¬ WakeMissed s :=
  ⟨by decide, wakes_noticed connsPerWorker _ (by decide)⟩

/-- The first to wake takes the news of the shutdown with it. -/
theorem shutdown_missed :
    ∃ s ∈ runStates (step connsPerWorker) (State.start connsPerWorker)
      (twoAsleep ++ [.setStop, .notifyStop, .wake 0 true, .drain 0]), WakeMissed s := by
  have h : (runTo (step connsPerWorker) (State.start connsPerWorker)
      (twoAsleep ++ [.setStop, .notifyStop, .wake 0 true, .drain 0])).map (fun s =>
        (s.stop, s.counter, s.notifying, s.stopping, s.workers 1)) =
      some (true, 0, false, false, ⟨.waiting true, 128, 0⟩) := by
    decide
  obtain ⟨s, hs, heq⟩ := Option.map_eq_some_iff.1 h
  simp only [Prod.mk.injEq] at heq
  obtain ⟨hstop, hcounter, hnotify, hstopping, hworker⟩ := heq
  refine ⟨s, runTo_mem hs, ⟨hcounter, hnotify, hstopping⟩, 1, ?_, ?_, Or.inr hstop⟩
  · rw [hworker]
  · rw [hworker]

end TinyServer.Runtime
