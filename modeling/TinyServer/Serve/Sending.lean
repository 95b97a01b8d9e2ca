import TinyServer.Serve.OpenFiles
import TinyServer.Serve.Slots
import TinyServer.Serve.Slotwise

/-!
# The deadline of a static response

`arm_fixed`, `arm_dir_redirect` and `arm_regular` set the deadline of a response once.
While it is sent, `http_conn_on_write` and `sweep_deadlines` look at the deadline, and
nothing moves it: `touch` is for the exchanges of the proxy. A response that is sent for
longer than `send_timeout_ms` is cut short even where its socket takes bytes all the time
(`spared_iff`). A beat is a step of the worker (`reachable_beat`).
-/

set_option autoImplicit false

namespace TinyServer.Serve

open TinyServer.Http TinyServer.Net TinyServer.Proxy TinyServer.Static TinyServer.Routing
open TinyServer.Lib

/-! ## A response that is being sent -/

/-- What looks at the deadline of the slot: `http_conn_on_write` for an event of its
socket, with what the worker has besides the slot, or the sweep. -/
inductive Beat where
  | write (w : Worker) (now : Nat) (sched : Schedule) (disk : Disk)
  | sweep (now : Nat)

/-- The time of the beat. -/
def Beat.now : Beat → Nat
  | .write _ now _ _ => now
  | .sweep now => now

/-- What became of the response: it goes on, its deadline was over, or nothing more is to be
sent. -/
inductive Fate where
  | going
  | expired (now : Nat)
  | over
  deriving DecidableEq, Repr

/-- A slot that sends a response, and when its socket last took bytes of it. -/
structure Sending where
  slot : Slot
  taken : Option Nat
  fate : Fate

namespace Sending

/-- A response that a handler has just armed. -/
def start (t : Turn) : Sending := ⟨Worker.slotOf t, none, .going⟩

/-- What an event of the socket does before the deadline. -/
def write (x : Sending) (w : Worker) (now : Nat) (sched : Schedule) (disk : Disk) : Sending :=
  let r := (w.load x.slot sched disk).onWrite now
  { slot := Worker.slotOf r.2
    taken := if x.slot.wire.clientOut.length < r.2.kernel.wire.clientOut.length then some now
      else x.taken
    fate := if r.1 = .wantWrite then .going else .over }

/-- One beat. Both functions look at the deadline first. -/
def step (x : Sending) (b : Beat) : Option Sending :=
  if x.fate ≠ .going then none
  else if x.slot.hc.deadlineMs ≤ b.now then some { x with fate := .expired b.now }
  else
    match b with
    | .write w now sched disk => some (x.write w now sched disk)
    | .sweep _ => some x

/-- The socket took bytes of the response within the last `send_timeout_ms`. -/
def Flows (x : Sending) (now : Nat) : Prop :=
  ∃ a, x.taken = some a ∧ now < a + x.slot.hc.sendTimeoutMs

instance (x : Sending) (now : Nat) : Decidable (x.Flows now) :=
  decidable_of_iff (∃ a ∈ x.taken, now < a + x.slot.hc.sendTimeoutMs) Iff.rfl

/-- The deadline did not cut a response short that the socket was taking. -/
def Spared (x : Sending) : Prop := ∀ now, x.fate = .expired now → ¬ x.Flows now

/-- A check that comes `send_timeout_ms` after the response was armed comes as long after
the socket last took bytes. -/
def Patient (armed : Nat) (x : Sending) (b : Beat) : Prop :=
  armed + x.slot.hc.sendTimeoutMs ≤ b.now → ¬ x.Flows b.now

instance (armed : Nat) (x : Sending) (b : Beat) : Decidable (Patient armed x b) :=
  inferInstanceAs (Decidable (armed + x.slot.hc.sendTimeoutMs ≤ b.now → ¬ x.Flows b.now))

/-- The deadline is that of the time at which the response was armed. -/
structure Since (armed : Nat) (x : Sending) : Prop where
  due : x.slot.hc.deadlineMs = armed + x.slot.hc.sendTimeoutMs
  spared : x.Spared

section Steps

variable {armed : Nat} {x y : Sending} {b : Beat}

theorem write_due (h : x.slot.hc.deadlineMs = armed + x.slot.hc.sendTimeoutMs) (w : Worker)
    (now : Nat) (sched : Schedule) (disk : Disk) :
    (x.write w now sched disk).slot.hc.deadlineMs =
      armed + (x.write w now sched disk).slot.hc.sendTimeoutMs := by
  have hdeadline : (x.write w now sched disk).slot.hc.deadlineMs = x.slot.hc.deadlineMs :=
    onWrite_get HttpConn.deadlineMs now (w.load x.slot sched disk)
  have htimeout : (x.write w now sched disk).slot.hc.sendTimeoutMs = x.slot.hc.sendTimeoutMs :=
    onWrite_get HttpConn.sendTimeoutMs now (w.load x.slot sched disk)
  rw [hdeadline, htimeout]
  exact h

/-- After a write the response goes on or is over; only a sweep finds it expired. -/
theorem write_spared (x : Sending) (w : Worker) (now : Nat) (sched : Schedule) (disk : Disk) :
    (x.write w now sched disk).Spared := by
  intro now' hfate
  have hfate : (if ((w.load x.slot sched disk).onWrite now).1 = .wantWrite then Fate.going
      else .over) = .expired now' := hfate
  split at hfate
  · cases hfate
  · cases hfate

/-- The step lemma. -/
theorem Since.step (hx : Since armed x) (hb : Patient armed x b) (h : x.step b = some y) :
    Since armed y := by
  unfold Sending.step at h
  split at h
  · cases h
  split at h
  · rename_i hlate
    rw [← Option.some.inj h]
    refine ⟨hx.due, fun now hfate => ?_⟩
    have hnow : b.now = now := Fate.expired.inj hfate
    rw [← hnow]
    rw [hx.due] at hlate
    exact hb hlate
  · cases b with
    | write w now sched disk =>
        rw [← Option.some.inj h]
        exact ⟨write_due hx.due w now sched disk, write_spared x w now sched disk⟩
    | sweep now =>
        rw [← Option.some.inj h]
        exact hx

/-- A check that is not patient cuts the response short. -/
theorem Since.cut (hx : Since armed x) (hb : ¬ Patient armed x b) (h : x.step b = some y) :
    ¬ y.Spared := by
  obtain ⟨hlate, hflows⟩ := Classical.not_imp.1 hb
  rw [not_not] at hflows
  unfold Sending.step at h
  split at h
  · cases h
  rw [if_pos (by rw [hx.due]; exact hlate)] at h
  rw [← Option.some.inj h]
  exact fun hspared => hspared b.now rfl hflows

end Steps

end Sending

/-! ## In the worker -/

section Worker

variable {site : Site} {fuel now idx : Nat} {w : Worker} {s : Slot} {sched : Schedule} {disk : Disk}

/-- Such an event calls `http_conn_on_write`. -/
theorem Worker.step_write {ev : Event} (hon : w.exited = false) (hs : w.slots[ev.idx]? = some s)
    (hactive : s.active = true) (hidle : s.proxying = false) (hphase : s.hc.phase ≠ .read)
    (hclient : ev.upstream = false) (hout : ev.out = true) :
    w.step site fuel (.event ev now sched disk) =
      (((w.load s sched disk).onWrite now).2.applyIo site fuel now ev.idx
        ((w.load s sched disk).onWrite now).1).map (w.store ev.idx) := by
  have hproxy : ¬ (ev.upstream = true ∨ (w.load s sched disk).proxying = true) := by
    rw [hclient]
    show ¬ (false = true ∨ s.proxying = true)
    rw [hidle]
    decide
  have hhup : ¬ (ev.err = true ∧ (!ev.inp) = true ∧ (!ev.out) = true) := by
    rw [hout]
    exact fun h => absurd h.2.2 nofun
  have hread : ¬ (ev.inp = true ∧ (w.load s sched disk).hc.phase = .read) := fun h => hphase h.2
  have hopen : ¬ (!s.active) = true := by
    rw [hactive]
    exact nofun
  have hhandler : (w.load s sched disk).onEvent site fuel now ev =
      ((w.load s sched disk).onWrite now).2.applyIo site fuel now ev.idx
        ((w.load s sched disk).onWrite now).1 := by
    unfold Turn.onEvent Turn.onReadEvent
    rw [if_neg hproxy, if_neg hhup, if_neg hread]
    simp only
    exact (if_neg hopen).trans (if_pos ⟨hout, hphase⟩)
  unfold Worker.step
  rw [if_neg (by rw [hon]; exact nofun)]
  show w.onSlot ev.idx sched disk (Turn.onEvent site fuel now ev) = _
  unfold Worker.onSlot
  rw [hs]
  simp only
  rw [if_neg hopen, hhandler]

/-- After its deadline `http_conn_on_write` closes the connection. -/
theorem onWrite_expired {t : Turn} (h : t.hc.deadlineMs ≤ now) : (t.onWrite now).1 = .close := by
  unfold Turn.onWrite Handler.httpConnOnWrite
  rw [if_pos h]

/-- What the worker does at a beat: it handles an event of the client's socket, which is ready
for writing, or it sweeps. -/
def Beat.Does (idx : Nat) (w : Worker) : Beat → Action → Prop
  | .write v now sched disk, a =>
      v = w ∧ ∃ ev, a = .event ev now sched disk ∧ ev.idx = idx ∧ ev.upstream = false ∧ ev.out = true
  | .sweep now, a => a = .sweep now

/-- The slot is as after the beat, but for the events it is armed for, or it is closed. It is
closed where the deadline was over. -/
def Sending.Leaves (y : Sending) (s : Slot) : Prop :=
  match y.fate with
  | .going => s = { y.slot with armedIo := s.armedIo } ∨ s.active = false
  | .expired _ => s.active = false
  | .over => True

/-- Arming the events changes what is armed, or closes the slot. -/
theorem armEvents_slot (idx : Nat) (io : HttpIo) {t : Turn} (hactive : t.active = true) :
    Worker.slotOf (t.armEvents idx io) =
        { Worker.slotOf t with armedIo := (t.armEvents idx io).armedIo } ∨
      (t.armEvents idx io).active = false := by
  unfold Turn.armEvents
  split
  · exact .inl rfl
  split
  · dsimp only
    split
    · exact .inl rfl
    · exact .inr (slotClose_inactive idx hactive)
  · exact .inr (slotClose_inactive idx hactive)

/-- An `HTTP_IO_WANT_WRITE` arms the events, an `HTTP_IO_CLOSE` closes the slot. -/
theorem applyIo_slot {io : HttpIo} {t t' : Turn} (hactive : t.active = true)
    (h : t.applyIo site fuel now idx io = some t') :
    (io = .wantWrite → Worker.slotOf t' = { Worker.slotOf t with armedIo := t'.armedIo } ∨
      t'.active = false) ∧ (io = .close → t'.active = false) := by
  have hon : ¬ (!t.active) = true := by
    rw [hactive]
    exact nofun
  constructor
  · rintro rfl
    have hloop : Turn.doneLoop site fuel now fuel .wantWrite t = some (.wantWrite, t) := by
      cases fuel <;> rfl
    rw [Turn.applyIo, hloop, Option.map_some, if_neg (show ¬ HttpIo.wantWrite = .close by decide),
      if_neg hon] at h
    rw [← Option.some.inj h]
    exact armEvents_slot idx .wantWrite hactive
  · rintro rfl
    have hloop : Turn.doneLoop site fuel now fuel .close t = some (.close, t) := by
      cases fuel <;> rfl
    rw [Turn.applyIo, hloop, Option.map_some, if_pos rfl] at h
    rw [← Option.some.inj h]
    exact slotClose_inactive idx hactive

/-- What closing some slots does to the slot `idx`. -/
theorem Worker.closeSlots_slot (close : Slot → Bool) (l : List Nat) : ∀ {w : Worker} {s : Slot},
    w.slots[idx]? = some s → ∃ s', (l.foldl (closeSlot close) w).slots[idx]? = some s' ∧
      ((s.active && close s) = false → s' = s) ∧
      ((s.active && close s) = true → idx ∈ l → s'.active = false) := by
  induction l with
  | nil => exact fun hs => ⟨_, hs, fun _ => rfl, fun _ hmem => absurd hmem List.not_mem_nil⟩
  | cons k l ih =>
      intro w s hs
      rw [List.foldl_cons]
      by_cases hk : idx = k
      · subst hk
        cases hclose : s.active && close s with
        | false =>
            have hsame : closeSlot close w idx = w := by
              unfold closeSlot
              rw [hs]
              exact if_neg (by rw [hclose]; exact nofun)
            rw [hsame]
            obtain ⟨s', hs', hkeep, -⟩ := ih hs
            exact ⟨s', hs', fun _ => hkeep hclose, nofun⟩
        | true =>
            have hactive : s.active = true := (Bool.and_eq_true_iff.1 hclose).1
            have hclosed : closeSlot close w idx =
                w.store idx ((w.load s .quiet .quiet).slotClose idx) := by
              unfold closeSlot
              rw [hs]
              exact if_pos hclose
            have hoff := slotClose_inactive idx (t := w.load s .quiet .quiet) hactive
            -- The slot is closed now, and the rest leaves a closed slot alone.
            rw [hclosed]
            obtain ⟨s', hs', hkeep, -⟩ := ih (store_self _ hs)
            have hsame := hkeep (by rw [show (slotOf _).active = false from hoff, Bool.false_and])
            exact ⟨s', hs', nofun, fun _ _ => hsame ▸ hoff⟩
      · have hsame : (closeSlot close w k).slots[idx]? = some s := by
          unfold closeSlot
          split
          · exact hs
          split
          · rwa [store_slots _ hk]
          · exact hs
        obtain ⟨s', hs', hkeep, hoff⟩ := ih hsame
        refine ⟨s', hs', hkeep, fun hclose hmem => hoff hclose ?_⟩
        exact (List.mem_cons.1 hmem).resolve_left hk

/-- The sweep closes the slot where its deadline is over, and leaves it otherwise. -/
theorem Worker.sweepDeadlines_slot (hm : w.Manned) (hs : w.slots[idx]? = some s)
    (hactive : s.active = true) : ∃ s', (w.sweepDeadlines now).slots[idx]? = some s' ∧
      (s.hc.deadlineMs ≤ now → s'.active = false) ∧ (¬ s.hc.deadlineMs ≤ now → s' = s) := by
  have hbusy : w.nactive ≠ 0 := by
    rw [hm.count]
    exact (List.countP_pos_iff.2 ⟨s, List.mem_of_getElem? hs, hactive⟩).ne'
  have hmem : idx ∈ List.range w.slots.length :=
    List.mem_range.2 (List.getElem?_eq_some_iff.1 hs).1
  unfold sweepDeadlines
  rw [if_neg hbusy]
  obtain ⟨s', hs', hkeep, hoff⟩ :=
    closeSlots_slot (fun s => decide (s.hc.deadlineMs ≤ now)) (List.range w.slots.length) hs
  refine ⟨s', hs', fun hlate => hoff ?_ hmem, fun hearly => hkeep ?_⟩
  · rw [hactive, Bool.true_and]
    exact decide_eq_true hlate
  · rw [hactive, Bool.true_and]
    exact decide_eq_false hearly

/-- A beat is a step of the worker on a slot that sends a response: the slot is left as the
beat leaves it. -/
theorem reachable_beat (site : Site) (fuel n : Nat) (as : List Action) {w w' : Worker}
    (hw : w ∈ runStates (Worker.step site fuel) (Worker.start n) as) {x y : Sending} {b : Beat}
    {a : Action} (hs : w.slots[idx]? = some x.slot) (hactive : x.slot.active = true)
    (hidle : x.slot.proxying = false) (hphase : x.slot.hc.phase ≠ .read) (hdoes : b.Does idx w a)
    (hbeat : x.step b = some y) (hstep : w.step site fuel a = some w') :
    ∃ s, w'.slots[idx]? = some s ∧ y.Leaves s := by
  have hon : w.exited = false := by
    by_contra hoff
    unfold Worker.step at hstep
    rw [if_pos (by simpa using hoff)] at hstep
    cases hstep
  unfold Sending.step at hbeat
  split at hbeat
  · cases hbeat
  rename_i hgoing
  cases b with
  | write v now sched disk =>
      obtain ⟨rfl, ev, rfl, rfl, hclient, hout⟩ := hdoes
      rw [Worker.step_write hon hs hactive hidle hphase hclient hout] at hstep
      obtain ⟨t, happly, rfl⟩ := Option.map_eq_some_iff.1 hstep
      obtain ⟨harm, hclose⟩ := applyIo_slot (t := ((v.load x.slot sched disk).onWrite now).2)
        hactive happly
      refine ⟨_, Worker.store_self t hs, ?_⟩
      split at hbeat
      · rename_i hlate
        rw [← Option.some.inj hbeat]
        exact hclose (onWrite_expired hlate)
      · rw [← Option.some.inj hbeat]
        unfold Sending.Leaves Sending.write
        by_cases hwant : ((v.load x.slot sched disk).onWrite now).1 = .wantWrite
        · simp only [if_pos hwant]
          exact harm hwant
        · simp only [if_neg hwant]
  | sweep now =>
      obtain rfl : a = .sweep now := hdoes
      unfold Worker.step at hstep
      rw [if_neg (by rw [hon]; exact nofun)] at hstep
      obtain rfl := Option.some.inj hstep
      have hswept : ∃ s', (w.sweepDeadlines now).slots[idx]? = some s' ∧
          (x.slot.hc.deadlineMs ≤ now → s'.active = false) ∧
          (¬ x.slot.hc.deadlineMs ≤ now → s' = x.slot) :=
        Worker.sweepDeadlines_slot (Worker.reachable_manned site fuel n as w hw) hs hactive
      obtain ⟨s', hs', hoff, hkeep⟩ := hswept
      refine ⟨s', hs', ?_⟩
      split at hbeat
      · rename_i hlate
        rw [← Option.some.inj hbeat]
        exact hoff hlate
      · rename_i hearly
        obtain rfl := Option.some.inj hbeat
        have hfate : x.fate = .going := not_not.1 hgoing
        unfold Sending.Leaves
        rw [hfate]
        exact .inl (by rw [hkeep hearly])

/-- A response that `route_begin` makes itself is due `send_timeout_ms` later. -/
theorem reply_due {t t' : Turn} (hparsed : httpParseRequest t.hc.buf = .ok t.hc.req)
    (h : Reply site now t t') (hfit : t.Fit) (hempty : t.Empty) :
    t'.hc.deadlineMs = now + t'.hc.sendTimeoutMs ∧ t'.hc.phase ≠ .read := by
  rcases reply_armed hparsed h hfit hempty with ha | ⟨resp, status, hresp, rfl⟩
  · refine ⟨?_, ha.ready.phase⟩
    rw [ha.same.timeout]
    exact ha.due
  · exact ⟨rfl, nofun⟩

end Worker

theorem going_ne (now : Nat) : Fate.going ≠ .expired now := nofun

/-- A response that a handler of a worker arms at the time `armed` is never cut short by
its deadline while the socket takes bytes of it, exactly if every check that comes
`send_timeout_ms` after `armed` comes as long after the socket last took bytes. -/
theorem spared_iff (site : Site) (fuel n : Nat) (as : List Action) {w : Worker}
    (hw : w ∈ runStates (Worker.step site fuel) (Worker.start n) as) {loop : Bool} {t t' : Turn}
    (hrouting : w.Handling site fuel anyState (.routing loop) t) {armed : Nat}
    (hreply : Reply site armed t.routed t') (beats : List Beat) :
    (∀ x ∈ runStates Sending.step (.start t') beats, x.Spared) ↔
      AllSteps Sending.step (Sending.Patient armed) (.start t') beats := by
  have hstance := reachable_stance hw hrouting
  have hgoes : Turn.Goes 0 t t.routed := routed_goes t
  obtain ⟨hdue, -⟩ : _ ∧ t'.hc.phase ≠ .read :=
    reply_due (t := t.routed) hrouting.parsed hreply (hgoes hstance.fit).1 (hstance.empty rfl)
  exact forall_runStates_iff (I := Sending.Since armed) (fun x hx => hx.spared)
    (fun x b y hx hb h => hx.step hb h) (fun x b y hx hb h => hx.cut hb h)
    ⟨hdue, fun now hfate => absurd hfate (going_ne now)⟩ beats

/-! ## A slow client -/

/-- A request for a file. -/
def downloadHead : List UInt8 := cstr "GET /a HTTP/1.1\r\nHost: h\r\n\r\n"

/-- The client sends it. -/
def downloadSched : Schedule := { Schedule.quiet with clientReads := [.data downloadHead] }

/-- The file is there. -/
def downloadDisk : Disk :=
  { Disk.quiet with opens := [.opened 50], fstats := [some (changedFile 0)] }

/-- The handler of a client that asks for a file of five bytes, before the request is routed. -/
def downloadTurn : Turn :=
  let t := (Worker.start 1).admitted .unused 10 0 [] downloadSched downloadDisk
  (t.afterRead.2.received downloadHead 0).parsed ((httpParseRequest downloadHead).toOption.getD .zero)

/-- The response to it. -/
def downloadReply : Turn :=
  downloadTurn.routed.withHandler
    (downloadTurn.routed.toHandler.staticBegin fileSite.allowDotfiles fileSite.docroot 0)

/-- The client takes the head and some bytes of the file, and then no more. -/
def downloadBeat (bytes : List UInt8) (now : Nat) : Beat :=
  .write (.start 1) now { Schedule.quiet with clientSends := [.sent 999] }
    { Disk.quiet with sendfiles := [.data bytes, .wouldBlock] }

theorem download_routing :
    (Worker.start 1).Handling fileSite 20 anyState (.routing true) downloadTurn := by
  have hparse : httpParseRequest downloadHead =
      .ok ((httpParseRequest downloadHead).toOption.getD .zero) := by decide +kernel
  refine .enter 10 0 0 [] .unused downloadSched downloadDisk rfl rfl rfl rfl
    (Acts.inAny ?_)
  refine ((Act.start _ rfl rfl rfl (by decide) rfl).acts.trans ?_)
  refine (Act.receive _ downloadHead (by decide) (by decide)).acts.trans ?_
  exact (Act.parse _ _ true (by decide) hparse).acts

/-- A client that takes the file in two parts, the second after twenty seconds. -/
def downloadBeats : List Beat := [downloadBeat [1, 2] 0, downloadBeat [3, 4, 5] 20000]

/-- It is served. -/
theorem spared_iff_download : ∃ x ∈ runStates Sending.step (.start downloadReply) downloadBeats,
    x.fate = .over ∧ x.taken = some 20000 ∧ x.Spared := by
  have hroute : Reply fileSite 0 downloadTurn.routed downloadReply := .docroot
  have hspared : ∀ x ∈ runStates Sending.step (.start downloadReply) downloadBeats, x.Spared := by
    refine (spared_iff fileSite 20 1 [] (List.mem_singleton_self _) download_routing hroute _).2 ?_
    decide +kernel
  obtain ⟨x, hx, hover, htaken⟩ := exists_of_run
    (p := fun x : Sending => x.fate = .over ∧ x.taken = some 20000)
    (show (runTo Sending.step (.start downloadReply) downloadBeats).any _ = true by decide +kernel)
  exact ⟨x, hx, hover, htaken, hspared x hx⟩

/-- The client took a byte ten seconds before the deadline cut the response short. -/
theorem slowClient_cut :
    ¬ ∀ x ∈ runStates Sending.step (.start downloadReply)
      [downloadBeat [1] 0, downloadBeat [2] 20000, downloadBeat [3] 30000], x.Spared := by
  intro hall
  obtain ⟨x, hx, hfate, hflows⟩ := exists_of_run
    (p := fun x : Sending => x.fate = .expired 30000 ∧ x.Flows 30000)
    (show (runTo Sending.step (.start downloadReply)
      [downloadBeat [1] 0, downloadBeat [2] 20000, downloadBeat [3] 30000]).any _ = true by decide +kernel)
  exact hall x hx 30000 hfate hflows

end TinyServer.Serve
