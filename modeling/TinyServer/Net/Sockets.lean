import Mathlib.Data.List.Basic

/-!
# Sockets

The calls a worker makes on its two sockets. A `Schedule` lists, for each kind of
call, the results the calls to come will have; a call on an empty list would
block (`read`, `send`), fails (`socket`), is in progress (`connect`) or succeeds
(`epoll_ctl`, `setsockopt`). A `Wire` records the bytes that moved, per upstream
connection, and the control calls in order. No code reads the wire.
-/

set_option autoImplicit false

namespace TinyServer.Net

/-- A result of `read`. `data []` is the end of the stream. Bytes of `data` beyond
the room the caller has stay for the next call. -/
inductive ReadResult where
  | data (bytes : List UInt8)
  | interrupted
  | wouldBlock
  | error
  deriving DecidableEq, Repr

/-- A result of `send` or `sendmsg`. `sent n` takes at most as many bytes as the
call offered. -/
inductive SendResult where
  | sent (n : Nat)
  | interrupted
  | wouldBlock
  | error
  deriving DecidableEq, Repr

/-- The result of `connect`. -/
inductive ConnectResult where
  | connected
  | inProgress
  | error
  deriving DecidableEq, Repr

/-- The two sockets of a slot. -/
inductive End where
  | client
  | upstream
  deriving DecidableEq, Repr

/-- What an `epoll_ctl` call registers besides errors and hang-ups. -/
structure Interest where
  read : Bool
  write : Bool
  deriving DecidableEq, Repr

/-- The operation of `epoll_ctl`. -/
inductive EpollOp where
  | add (interest : Interest)
  | mod (interest : Interest)
  | del
  deriving DecidableEq, Repr

/-- A call that moves no bytes, with its result. `accept` is a client connection that
a worker takes off the queue, `openFile` an `openat2` or `open`. -/
inductive ControlCall where
  | accept (fd : Nat)
  | openFile (path : List UInt8) (fd : Option Nat)
  | socket (addr : List UInt8) (fd : Option Nat)
  | connect (fd : Nat) (addr : List UInt8) (result : ConnectResult)
  | epollCtl (fd : Nat) (op : EpollOp) (ok : Bool)
  | cork (fd : Nat) (on ok : Bool)
  | close (fd : Nat)
  deriving DecidableEq, Repr

/-- What the calls give, one after the other. Where a list ends, reads and sends would block. -/
structure Schedule where
  clientReads : List ReadResult
  clientSends : List SendResult
  upstreamReads : List ReadResult
  upstreamSends : List SendResult
  sockets : List (Option Nat)
  connects : List ConnectResult
  epollCtls : List Bool
  sockopts : List Bool
  deriving DecidableEq, Repr

/-- No result is known: reads and sends would block. -/
def Schedule.quiet : Schedule := ⟨[], [], [], [], [], [], [], []⟩

/-- One upstream connection as an exchange used it. -/
structure UpstreamConn where
  fd : Nat
  reused : Bool
  sent : List UInt8
  received : List UInt8
  eof : Bool
  deriving DecidableEq, Repr

/-- The upstream connections are listed newest first, the control calls oldest
first. -/
structure Wire where
  clientIn : List UInt8
  clientOut : List UInt8
  conns : List UpstreamConn
  calls : List ControlCall
  deriving DecidableEq, Repr

/-- Nothing was sent or received. -/
def Wire.empty : Wire := ⟨[], [], [], []⟩

/-- Change the record of the newest upstream connection. -/
def onNewest (conns : List UpstreamConn) (f : UpstreamConn → UpstreamConn) :
    List UpstreamConn :=
  match conns with
  | [] => []
  | c :: cs => f c :: cs

@[simp] theorem onNewest_cons (c : UpstreamConn) (cs : List UpstreamConn)
    (f : UpstreamConn → UpstreamConn) : onNewest (c :: cs) f = f c :: cs := rfl

/-- The newest connection is the first. -/
theorem onNewest_eq {conns cs : List UpstreamConn} {c : UpstreamConn}
    (f : UpstreamConn → UpstreamConn) (h : conns = c :: cs) : onNewest conns f = f c :: cs := by
  rw [h, onNewest_cons]

/-- What the system will answer, and what went over the sockets. -/
structure Kernel where
  sched : Schedule
  wire : Wire
  deriving DecidableEq, Repr

/-! ## One call -/

/-- What a read of the code comes to. -/
inductive ReadOutcome where
  | got (bytes : List UInt8)
  | eof
  | interrupted
  | wouldBlock
  | error
  deriving DecidableEq, Repr

/-- `read` with room for `room` bytes. -/
def readOnce : List ReadResult → Nat → ReadOutcome × List ReadResult
  | [], _ => (.wouldBlock, [])
  | .data [] :: rs, _ => (.eof, rs)
  | .data (b :: bs) :: rs, room =>
      let rest := (b :: bs).drop room
      (.got ((b :: bs).take room), if rest = [] then rs else .data rest :: rs)
  | .interrupted :: rs, _ => (.interrupted, rs)
  | .wouldBlock :: rs, _ => (.wouldBlock, rs)
  | .error :: rs, _ => (.error, rs)

/-- `read`, again while it is interrupted. -/
def readRetry : List ReadResult → Nat → ReadOutcome × List ReadResult
  | .interrupted :: rs, room => readRetry rs room
  | rs, room => readOnce rs room

/-- What a send of the code comes to. -/
inductive SendOutcome where
  | done
  | wouldBlock
  | dead
  deriving DecidableEq, Repr

/-- `send` of all of `data`: again after a short or interrupted send, until all
is sent, the socket would block, or it fails or takes nothing. Returns how many
bytes went out. -/
def sendLoop : List SendResult → List UInt8 → Nat × SendOutcome × List SendResult
  | rs, [] => (0, .done, rs)
  -- nothing left in the script: the socket takes no more
  | [], _ :: _ => (0, .wouldBlock, [])
  | .interrupted :: rs, b :: bs => sendLoop rs (b :: bs)
  | .wouldBlock :: rs, _ :: _ => (0, .wouldBlock, rs)
  | .error :: rs, _ :: _ => (0, .dead, rs)
  | .sent n :: rs, b :: bs =>
      -- `send` of 0 bytes counts as a dead peer
      if n = 0 then (0, .dead, rs)
      else
        let r := sendLoop rs ((b :: bs).drop n)
        (min n (b :: bs).length + r.1, r.2)

/-- One `sendmsg` of `len` bytes, again while it is interrupted. `done` means
that it took the bytes counted, which need not be all. -/
def sendOnce : List SendResult → Nat → Nat × SendOutcome × List SendResult
  | [], _ => (0, .wouldBlock, [])
  | .interrupted :: rs, len => sendOnce rs len
  | .wouldBlock :: rs, _ => (0, .wouldBlock, rs)
  | .error :: rs, _ => (0, .dead, rs)
  | .sent n :: rs, len => if min n len = 0 then (0, .dead, rs) else (min n len, .done, rs)

/-- A read gives no more than there is room for. -/
theorem readOnce_got {rs rs' : List ReadResult} {room : Nat} {bytes : List UInt8}
    (h : readOnce rs room = (.got bytes, rs')) : bytes.length ≤ room := by
  unfold readOnce at h
  split at h
  all_goals try cases h
  exact List.length_take_le _ _

/-- A read that gives bytes gives at least one. -/
theorem readOnce_got_ne {rs rs' : List ReadResult} {room : Nat} {bytes : List UInt8}
    (h : readOnce rs room = (.got bytes, rs')) (hroom : 0 < room) : bytes ≠ [] := by
  unfold readOnce at h
  split at h
  all_goals try cases h
  simp only [ne_eq, List.take_eq_nil_iff, not_or]
  exact ⟨by omega, nofun⟩

/-- A read is repeated until it is not interrupted. -/
theorem readRetry_ne_interrupted (rs : List ReadResult) (room : Nat) :
    (readRetry rs room).1 ≠ .interrupted := by
  induction rs with
  | nil => exact nofun
  | cons r rs ih =>
      cases r with
      | interrupted => exact ih
      | data bytes => cases bytes <;> exact nofun
      | wouldBlock => exact nofun
      | error => exact nofun

/-- A retried read ends with the result of one call. -/
theorem exists_readRetry (rs : List ReadResult) (room : Nat) :
    ∃ rs₀, readRetry rs room = readOnce rs₀ room := by
  induction rs with
  | nil => exact ⟨[], rfl⟩
  | cons r rs ih =>
      cases r with
      | interrupted => exact ih
      | data bytes => exact ⟨_, rfl⟩
      | wouldBlock => exact ⟨_, rfl⟩
      | error => exact ⟨_, rfl⟩

/-- No more is sent than there is. -/
theorem sendLoop_le (rs : List SendResult) : ∀ data : List UInt8,
    (sendLoop rs data).1 ≤ data.length := by
  induction rs with
  | nil => exact fun data => by cases data <;> exact Nat.zero_le _
  | cons r rs ih =>
      intro data
      cases data with
      | nil => cases r <;> exact Nat.zero_le _
      | cons b bs =>
          cases r with
          | interrupted => exact ih (b :: bs)
          | wouldBlock => exact Nat.zero_le _
          | error => exact Nat.zero_le _
          | sent n =>
              rw [sendLoop]
              split
              · exact Nat.zero_le _
              · have := ih ((b :: bs).drop n)
                rw [List.length_drop] at this
                show min n (b :: bs).length + _ ≤ _
                omega

/-- The loop ends with `done` exactly when everything went out. -/
theorem sendLoop_done_iff (rs : List SendResult) : ∀ data : List UInt8,
    (sendLoop rs data).2.1 = .done ↔ (sendLoop rs data).1 = data.length := by
  induction rs with
  | nil =>
      intro data
      cases data with
      | nil => exact ⟨fun _ => rfl, fun _ => rfl⟩
      | cons b bs => exact ⟨nofun, nofun⟩
  | cons r rs ih =>
      intro data
      cases data with
      | nil => cases r <;> exact ⟨fun _ => rfl, fun _ => rfl⟩
      | cons b bs =>
          cases r with
          | interrupted => exact ih (b :: bs)
          | wouldBlock => exact ⟨nofun, nofun⟩
          | error => exact ⟨nofun, nofun⟩
          | sent n =>
              rw [sendLoop]
              split
              · exact ⟨nofun, nofun⟩
              · have hle := sendLoop_le rs ((b :: bs).drop n)
                show (sendLoop rs ((b :: bs).drop n)).2.1 = .done ↔
                  min n (b :: bs).length + (sendLoop rs ((b :: bs).drop n)).1 = _
                rw [ih, List.length_drop] at *
                omega

/-- No more is sent than there is. -/
theorem sendOnce_le (rs : List SendResult) (len : Nat) : (sendOnce rs len).1 ≤ len := by
  induction rs with
  | nil => exact Nat.zero_le _
  | cons r rs ih =>
      cases r with
      | interrupted => exact ih
      | wouldBlock => exact Nat.zero_le _
      | error => exact Nat.zero_le _
      | sent n =>
          rw [sendOnce]
          split
          · exact Nat.zero_le _
          · exact Nat.min_le_right _ _

/-- A `sendmsg` that did not take anything did not succeed. -/
theorem sendOnce_pos (rs : List SendResult) (len : Nat) :
    (sendOnce rs len).2.1 = .done ↔ 0 < (sendOnce rs len).1 := by
  induction rs with
  | nil => exact ⟨nofun, nofun⟩
  | cons r rs ih =>
      cases r with
      | interrupted => exact ih
      | wouldBlock => exact ⟨nofun, nofun⟩
      | error => exact ⟨nofun, nofun⟩
      | sent n =>
          rw [sendOnce]
          split
          · exact ⟨nofun, nofun⟩
          · exact ⟨fun _ => by omega, fun _ => rfl⟩

/-! ## Calls on the kernel -/

namespace Kernel

/-- A call is recorded. -/
def call (k : Kernel) (c : ControlCall) : Kernel :=
  { k with wire := { k.wire with calls := k.wire.calls ++ [c] } }

/-- A change of the newest upstream connection. -/
def onConn (k : Kernel) (f : UpstreamConn → UpstreamConn) : Kernel :=
  { k with wire := { k.wire with conns := onNewest k.wire.conns f } }

/-- What was read is recorded. -/
def recordRead (k : Kernel) : End → ReadOutcome → Kernel
  | .client, .got bytes =>
      { k with wire := { k.wire with clientIn := k.wire.clientIn ++ bytes } }
  | .client, _ => k
  | .upstream, .got bytes => k.onConn fun c => { c with received := c.received ++ bytes }
  | .upstream, .eof => k.onConn fun c => { c with eof := true }
  | .upstream, _ => k

/-- What was sent is recorded. -/
def recordSend (k : Kernel) : End → List UInt8 → Kernel
  | .client, bytes => { k with wire := { k.wire with clientOut := k.wire.clientOut ++ bytes } }
  | .upstream, bytes => k.onConn fun c => { c with sent := c.sent ++ bytes }

theorem recordRead_sched (k : Kernel) (e : End) (r : ReadOutcome) :
    (k.recordRead e r).sched = k.sched := by
  cases e <;> cases r <;> rfl

/-- What the reads of a socket will give. -/
def reads (k : Kernel) : End → List ReadResult
  | .client => k.sched.clientReads
  | .upstream => k.sched.upstreamReads

/-- What the sends of a socket will give. -/
def sends (k : Kernel) : End → List SendResult
  | .client => k.sched.clientSends
  | .upstream => k.sched.upstreamSends

/-- The reads that are left. -/
def setReads (k : Kernel) : End → List ReadResult → Kernel
  | .client, rs => { k with sched := { k.sched with clientReads := rs } }
  | .upstream, rs => { k with sched := { k.sched with upstreamReads := rs } }

/-- The sends that are left. -/
def setSends (k : Kernel) : End → List SendResult → Kernel
  | .client, rs => { k with sched := { k.sched with clientSends := rs } }
  | .upstream, rs => { k with sched := { k.sched with upstreamSends := rs } }

/-- `read(fd, p, room)`. -/
def read (k : Kernel) (e : End) (room : Nat) : ReadOutcome × Kernel :=
  let r := readOnce (k.reads e) room
  (r.1, (k.setReads e r.2).recordRead e r.1)

/-- `read(fd, p, room)`, again while it is interrupted. -/
def readThrough (k : Kernel) (e : End) (room : Nat) : ReadOutcome × Kernel :=
  let r := readRetry (k.reads e) room
  (r.1, (k.setReads e r.2).recordRead e r.1)

/-- The loop of sends of `data`. -/
def send (k : Kernel) (e : End) (data : List UInt8) : Nat × SendOutcome × Kernel :=
  let r := sendLoop (k.sends e) data
  (r.1, r.2.1, (k.setSends e r.2.2).recordSend e (data.take r.1))

/-- One `sendmsg` of `data`, again while it is interrupted. -/
def sendmsg (k : Kernel) (e : End) (data : List UInt8) : Nat × SendOutcome × Kernel :=
  let r := sendOnce (k.sends e) data.length
  (r.1, r.2.1, (k.setSends e r.2.2).recordSend e (data.take r.1))

/-- `socket(family, ...)` for an upstream address. -/
def socket (k : Kernel) (addr : List UInt8) : Option Nat × Kernel :=
  let fd := k.sched.sockets.headD none
  (fd, { k with sched := { k.sched with sockets := k.sched.sockets.tail } }.call
    (.socket addr fd))

/-- `connect`. -/
def connect (k : Kernel) (fd : Nat) (addr : List UInt8) : ConnectResult × Kernel :=
  let r := k.sched.connects.headD .inProgress
  (r, { k with sched := { k.sched with connects := k.sched.connects.tail } }.call
    (.connect fd addr r))

/-- `epoll_ctl`. -/
def epollCtl (k : Kernel) (fd : Nat) (op : EpollOp) : Bool × Kernel :=
  let ok := k.sched.epollCtls.headD true
  (ok, { k with sched := { k.sched with epollCtls := k.sched.epollCtls.tail } }.call
    (.epollCtl fd op ok))

/-- `setsockopt(fd, IPPROTO_TCP, TCP_CORK, ...)`. -/
def cork (k : Kernel) (fd : Nat) (on : Bool) : Bool × Kernel :=
  let ok := k.sched.sockopts.headD true
  (ok, { k with sched := { k.sched with sockopts := k.sched.sockopts.tail } }.call
    (.cork fd on ok))

/-- `close`. -/
def close (k : Kernel) (fd : Nat) : Kernel := k.call (.close fd)

/-- A new upstream connection starts, on a socket just made or taken from the
idle pool. -/
def openConn (k : Kernel) (fd : Nat) (reused : Bool) : Kernel :=
  { k with wire := { k.wire with conns := ⟨fd, reused, [], [], false⟩ :: k.wire.conns } }

end Kernel

end TinyServer.Net
