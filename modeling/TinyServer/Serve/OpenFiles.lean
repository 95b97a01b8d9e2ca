import TinyServer.Serve.Descriptors

/-!
# The open files of a worker over its runs

The open-file cache shares its descriptors with the connections that send them. In every
state that a worker reaches the counts are right, and nothing in use is closed. A
descriptor is closed once nobody uses it, as long as the retired list has room for every
descriptor that is replaced while it is in use.
-/

set_option autoImplicit false

namespace TinyServer.Serve

open TinyServer.Http TinyServer.Net TinyServer.Proxy TinyServer.Static TinyServer.Routing
open TinyServer.Lib

namespace Worker

section Holders

variable {n : Nat} {w : Worker}

/-- The count of a place is the number of connections that hold its descriptor. -/
theorem Sane.count (h : w.Sane n) (hn : w.slots.length = n) {p : Place} {fd m : Nat}
    (hp : w.ledger.place p = some (fd, m)) : m = w.holders fd := by
  rw [← holders_eq, hn]
  exact h.sound.counted.count p fd m hp

theorem cached_place {i : Fin FILE_CACHE_SLOTS} {e : CachedFile} (he : w.cache.entries i = .live e) :
    w.ledger.place (.cached i) = some (e.fd, e.uses) := by
  show FileCache.entryFd (w.cache.entries i) = _
  rw [he]
  rfl

theorem retired_place {i : Fin FILE_CACHE_RETIRED} {r : RetiredFd}
    (hr : w.cache.retired i = some r) : w.ledger.place (.retired i) = some (r.fd, r.uses) := by
  show (w.cache.retired i).map _ = _
  rw [hr]
  rfl

theorem held_place {k fd : Nat} {s : Slot} (hs : w.slots[k]? = some s) (hfd : s.holds = some fd) :
    w.ledger.held k = some fd := by
  show (w.slots[k]?).bind Slot.holds = _
  rw [hs, Option.bind_some, hfd]

end Holders

/-- The counts of the cache are right: every count is the number of connections that hold
the descriptor, and what a connection holds is open. -/
structure Counts (w : Worker) : Prop where
  cached : ∀ i e, w.cache.entries i = .live e → e.uses = w.holders e.fd
  retired : ∀ i r, w.cache.retired i = some r → r.uses = w.holders r.fd
  isOpen : ∀ s ∈ w.slots, ∀ fd, s.holds = some fd → openFds w.calls fd = some .file

/-- The use counts of a steady worker are the numbers of its slots that hold the file. -/
theorem Steady.counts {n : Nat} {w : Worker} (h : w.Steady n) (hn : n ≤ UINT16_MAX)
    (hfresh : FreshCalls w.calls) : w.Counts := by
  have hsane := h.sane hn hfresh
  refine ⟨fun i e he => hsane.count h.count (cached_place he),
    fun i r hr => hsane.count h.count (retired_place hr), fun s hs fd hfd => ?_⟩
  obtain ⟨k, hk⟩ := List.mem_iff_getElem?.1 hs
  apply hsane.sound.counted.held
  have hlt : k < n := by
    rw [← h.count]
    exact (List.getElem?_eq_some_iff.1 hk).1
  exact Nat.pos_iff_ne_zero.1 (Net.holdersOf_pos fd hlt (held_place hk hfd))

end Worker

/-- In every state that a worker reaches, the counts of the cache are right, and the next
step closes no descriptor that a connection it does not handle holds. The number of slots
is what `tiny_worker_main` accepts; the kernel gives out no number twice. -/
theorem cachedFiles_counted (site : Site) (fuel : Nat) {n : Nat} (hn : n ≤ UINT16_MAX)
    (as : List Action) :
    ∀ w ∈ runStates (Worker.step site fuel) (Worker.start n) as, FreshCalls w.calls →
      w.Counts ∧ ∀ a w' cs, w.step site fuel a = some w' → w'.calls = w.calls ++ cs →
        FreshCalls w'.calls → ∀ k s fd, ¬ w.touches a k → w.slots[k]? = some s →
          s.holds = some fd → ControlCall.close fd ∉ cs := by
  intro w hw hfresh
  have hsteady := Worker.reachable_steady site fuel n as w hw
  refine ⟨hsteady.counts hn hfresh, fun a w' cs hstep hcalls hfresh' k s fd hk hs hfd => ?_⟩
  exact (Worker.step_steady hsteady hstep).2 hn hfresh' cs hcalls k fd hk (Worker.held_place hs hfd)

/-- One file, at `/a`. -/
def fileSite : Site where
  routes := [⟨.static, false, true, none, cstr "/", [], [], 0⟩]
  docroot := some 3
  allowDotfiles := false

/-- The file after it was changed `i` times. -/
def changedFile (i : Nat) : Stat := ⟨.regular, 5, i, 0, 1⟩

/-- The slow client `fd` asks for the file after it was changed `i` times. -/
def slowDownload (fd i : Nat) : Action :=
  .accept (some fd) (2000 * i) (2000 * i)
    { Schedule.quiet with clientReads := [.data (cstr "GET /a HTTP/1.1\r\nHost: h\r\n\r\n")] }
    { Disk.quiet with
      opens := [.opened (50 + i)]
      fstats := [some (changedFile i)]
      fstatats := [some (changedFile i)] }

/-- Two clients share the descriptor of an entry, a third one gets the changed file. -/
theorem cachedFiles_counted_shared :
    ∃ w ∈ runStates (Worker.step fileSite 20) (Worker.start 3)
      [slowDownload 10 0, slowDownload 11 0, slowDownload 12 1], w.Counts ∧
      w.slots.map Slot.holds = [some 50, some 50, some 51] ∧ w.holders 50 = 2 := by
  have hrun : (runTo (Worker.step fileSite 20) (Worker.start 3)
      [slowDownload 10 0, slowDownload 11 0, slowDownload 12 1]).any (fun w =>
        decide (FreshCalls w.calls ∧ w.slots.map Slot.holds = [some 50, some 50, some 51] ∧
          w.holders 50 = 2)) = true := by
    decide +kernel
  obtain ⟨w, hw, hfacts⟩ := (Option.any_eq_true ..).1 hrun
  have hall : FreshCalls w.calls ∧ w.slots.map Slot.holds = [some 50, some 50, some 51] ∧
      w.holders 50 = 2 := of_decide_eq_true hfacts
  have hmem := runTo_mem hw
  refine ⟨w, hmem, ?_, hall.2⟩
  exact (cachedFiles_counted fileSite 20 (by decide) _ w hmem hall.1).1

/-! ## What stays open -/

/-- An open file is a live entry of the cache, or a connection has it. -/
def Worker.Tidy (w : Worker) : Prop :=
  ∀ fd, openFds w.calls fd = some .file → (∃ i e, w.cache.entries i = .live e ∧ e.fd = fd) ∨
    ∃ s ∈ w.slots, s.hc.fileFd = some fd

/-- No descriptor is replaced while it is in use and the retired list is full. -/
def KeepsReplaced (site : Site) (fuel : Nat) (w : Worker) (a : Action) : Prop :=
  ∀ w', w.step site fuel a = some w' → w'.cache.dropped = w.cache.dropped

instance KeepsReplaced.decidable (site : Site) (fuel : Nat) (w : Worker) (a : Action) :
    Decidable (KeepsReplaced site fuel w a) :=
  decidable_of_iff (∀ w' ∈ w.step site fuel a, w'.cache.dropped = w.cache.dropped) Iff.rfl

/-- A connection that has a descriptor in one of its hands refers to it. -/
theorem Slot.owns_file {s : Slot} {part : Part} {fd k : Nat} (h : s.owns part = some fd)
    (hkind : Place.kind (.slot k part) = .file) : s.hc.fileFd = some fd := by
  cases part with
  | client | upstream => cases hkind
  | opened => cases h
  | own =>
      have hown : (if s.hc.fileOwned then s.hc.fileFd else none) = some fd := h
      split at hown
      · exact hown
      · cases hown

theorem Slot.holds_file {s : Slot} {fd : Nat} (h : s.holds = some fd) :
    s.hc.fileFd = some fd := by
  unfold Slot.holds at h
  split at h
  · cases h
  · exact h

/-- A worker that lost no descriptor is tidy. -/
theorem Worker.Steady.tidy {n : Nat} {w : Worker} (h : w.Steady n) (hn : n ≤ UINT16_MAX)
    (hfresh : FreshCalls w.calls) (hnone : w.cache.dropped = []) : w.Tidy := by
  intro fd hfd
  have hsane := h.sane hn hfresh
  rcases hsane.sound.covered fd hfd with ⟨p, m, hp⟩ | hlost
  · have hkind := hsane.sound.counted.isOpen p fd m hp
    rw [hfd] at hkind
    cases p with
    | cached i =>
        left
        cases he : w.cache.entries i with
        | live e =>
            rw [Worker.cached_place he] at hp
            exact ⟨i, e, he, congrArg Prod.fst (Option.some.inj hp)⟩
        | empty | tombstone =>
            have hnone : FileCache.entryFd (w.cache.entries i) = some (fd, m) := hp
            rw [he] at hnone
            cases hnone
    | retired i =>
        -- A retired descriptor is in use.
        right
        obtain ⟨r, hr, hfields⟩ := Option.map_eq_some_iff.1 hp
        cases hfields
        have hpos := h.busy i r hr
        rw [hsane.count h.count hp] at hpos
        obtain ⟨s, hs, hheld⟩ := List.countP_pos_iff.1 hpos
        exact ⟨s, hs, Slot.holds_file (of_decide_eq_true hheld)⟩
    | idle k => cases hkind
    | slot k part =>
        right
        obtain ⟨x, hx, hfields⟩ := Option.map_eq_some_iff.1 hp
        cases hfields
        obtain ⟨s, hs, hown⟩ := Option.bind_eq_some_iff.1 hx
        exact ⟨s, List.mem_of_getElem? hs, Slot.owns_file hown (Option.some.inj hkind).symm⟩
  · rw [show w.ledger.dropped = [] from hnone] at hlost
    cases hlost

/-- In every run in which the retired list has room for every descriptor that is replaced
while it is in use, a file is open only as long as a live entry or a connection has it. -/
theorem replacedFiles_closed (site : Site) (fuel : Nat) {n : Nat} (hn : n ≤ UINT16_MAX)
    (as : List Action)
    (hgood : AllSteps (Worker.step site fuel) (KeepsReplaced site fuel) (Worker.start n) as) :
    ∀ w ∈ runStates (Worker.step site fuel) (Worker.start n) as, FreshCalls w.calls → w.Tidy := by
  intro w hw hfresh
  refine (Worker.reachable_steady site fuel n as w hw).tidy hn hfresh ?_
  refine AllSteps.invariant (I := fun w : Worker => w.cache.dropped = []) ?_ rfl hgood w hw
  intro w a w' hnone hkeeps hstep
  rw [hkeeps w' hstep, hnone]

/-- A client gets the file, and goes away after it was changed for another one. -/
def replacedRun : List Action :=
  [slowDownload 10 0, slowDownload 11 1, .event ⟨false, 0, false, false, true⟩ 3000 .quiet .quiet]

/-- A file that is replaced while it is in use is closed when its connection ends. -/
theorem replacedFiles_closed_two :
    ∃ w ∈ runStates (Worker.step fileSite 20) (Worker.start 2) replacedRun,
      w.Tidy ∧ w.slots.map (·.hc.fileFd) = [none, some 51] ∧ openFds w.calls 50 = none := by
  have hrun : (runTo (Worker.step fileSite 20) (Worker.start 2) replacedRun).any (fun w =>
        decide (FreshCalls w.calls ∧ w.slots.map (·.hc.fileFd) = [none, some 51] ∧
          openFds w.calls 50 = none)) = true := by
    decide +kernel
  obtain ⟨w, hw, hfacts⟩ := (Option.any_eq_true ..).1 hrun
  have hall : FreshCalls w.calls ∧ w.slots.map (·.hc.fileFd) = [none, some 51] ∧
      openFds w.calls 50 = none := of_decide_eq_true hfacts
  have hmem := runTo_mem hw
  have hclosed := replacedFiles_closed fileSite 20 (n := 2) (by decide) replacedRun (by decide +kernel)
  exact ⟨w, hmem, hclosed w hmem hall.1, hall.2⟩

/-- Ten slow clients, and nine changes of the file they are sent; then the ninth client
goes away. -/
def replacingRun : List Action :=
  (List.range 10).map (fun i => slowDownload (10 + i) i) ++
    [.event ⟨false, 8, false, false, true⟩ 20000 .quiet .quiet]

/-- The ninth descriptor finds the retired list full, and is never closed. -/
theorem replacedFile_stays_open :
    ¬ ∀ w ∈ runStates (Worker.step fileSite 20) (Worker.start 10) replacingRun,
      FreshCalls w.calls → w.Tidy := by
  intro hall
  have hrun : (runTo (Worker.step fileSite 20) (Worker.start 10) replacingRun).any (fun w =>
      decide (FreshCalls w.calls ∧ openFds w.calls 58 = some .file ∧
        (∀ i, (FileCache.entryFd (w.cache.entries i)).map Prod.fst ≠ some 58) ∧
        ∀ s ∈ w.slots, s.hc.fileFd ≠ some 58)) = true := by
    decide +kernel
  obtain ⟨w, hw, hfacts⟩ := (Option.any_eq_true ..).1 hrun
  have hfacts' := of_decide_eq_true hfacts
  obtain ⟨hfresh, hopen, hentries, hslots⟩ := hfacts'
  rcases hall w (runTo_mem hw) hfresh 58 hopen with ⟨i, e, he, hfd⟩ | ⟨s, hs, hfd⟩
  · apply hentries i
    rw [he]
    exact congrArg some hfd
  · exact hslots s hs hfd

end TinyServer.Serve
