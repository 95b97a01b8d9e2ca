import TinyServer.Runtime.Process

/-!
# The life of the process

Whatever fails and however the threads are scheduled, nothing is used that is not there, and
when `main` returns every worker and the logger have been joined and everything that was taken
has been given back, once (`reachable_books`).

What `main` knows of the variables depends on where it stands (`MainKnows`), and so does what a
worker knows of them (`ThreadKnows`). Each case of the step functions has its lemma.
-/

set_option autoImplicit false

namespace TinyServer.Runtime

open TinyServer.Lib TinyServer.Routing TinyServer.Static TinyServer.Net

/-! ## The invariant -/

namespace MainPc

/-- The workers that were joined. -/
def joined : MainPc → Nat
  | .joining k => k
  | _ => 0

/-- There is no worker yet, or none any more. -/
def Alone : MainPc → Prop
  | .creating _ | .checking _ | .serving | .stopping | .joining _ => False
  | _ => True

/-- `main` has a `tiny_runtime`. -/
def Entered : MainPc → Prop
  | .logInit | .start | .done => False
  | _ => True

/-- There is a logger to be joined. -/
def Logged : MainPc → Prop
  | .logInit | .exiting | .done => False
  | _ => True

/-- `main` has both. -/
def Inside (pc : MainPc) : Prop := pc.Entered ∧ pc.Logged

/-- The field is set. -/
def Set : MainPc → Shared → Prop
  | .routes, x | .wake, x => ∃ y, x = .pool y
  | .socket, x => x ≠ .listenFd
  | .bind, _ | .creating _, _ | .checking _, _ | .serving, _ => True
  | _, _ => False

/-- The field is not set yet, or not any more. -/
def Free : MainPc → Shared → Prop
  | .logInit, _ | .start, _ | .logShutdown, _ | .logJoin, _ | .exiting, _ | .done, _ => True
  | .mapping _ rest, .pool x => x ∈ rest
  | .mapping _ _, _ => True
  | .routes, x | .wake, x => x = .wakeFd ∨ x = .listenFd
  | .socket, x => x = .listenFd
  | .releasing rest, x => .shared x ∉ rest
  | _, _ => False

/-- No table is installed yet, or none any more. -/
def Unrouted : MainPc → Prop
  | .logInit | .start | .mapping _ _ | .routes | .logShutdown | .logJoin | .exiting | .done => True
  | .releasing rest => .routes ∉ rest
  | _ => False

end MainPc

namespace ThreadPc

/-- What the worker has of its own, the newest first. -/
def owns : ThreadPc → List Own
  | .absent | .start | .stack _ | .exited => []
  | .events _ => [.freeStack]
  | .epoll _ => [.events, .freeStack]
  | .watch _ | .top _ => [.epfd, .events, .freeStack]
  | .leaving rest _ => rest

/-- Its copy of `wake_fd`. -/
def copy : ThreadPc → Option Resource
  | .stack wake | .events wake | .epoll wake | .watch wake | .top wake => some wake
  | _ => none

/-- The worker runs. -/
def Alive (t : ThreadPc) : Prop := t ≠ .absent ∧ t ≠ .exited

end ThreadPc

/-- What `main` knows of the variables where `n` workers were started. -/
structure MainKnows (pc : MainPc) (vars : Place → Option Resource) (n : Nat) : Prop where
  runtime : vars .runtime ≠ none ↔ pc.Entered
  threads : ∀ i, vars (.thread i) ≠ none ↔ pc.joined ≤ i ∧ i < n
  ready : ∀ x, pc.Set x ∨ 0 < n → vars (.shared x) ≠ none
  free : ∀ x, pc.Free x → vars (.shared x) = none
  rest : ∀ sizes rest, pc = .mapping sizes rest → rest.Nodup
  alone : pc.Alone → n = 0
  count : ∀ i, pc = .creating i → n = i

/-- What a worker knows of them; `k` workers were joined. -/
structure ThreadKnows (k n : Nat) (vars : Place → Option Resource) (i : Nat) (t : ThreadPc) : Prop where
  own : ∀ x, vars (.own i x) ≠ none ↔ x ∈ t.owns
  rest : t.owns.Nodup
  copy : ∀ wake, t.copy = some wake → vars (.shared .wakeFd) = some wake
  owed : t.Alive → k ≤ i ∧ i < n

/-- What is known of the logger. -/
structure LoggerKnows (pc : MainPc) (vars : Place → Option Resource) (l : LoggerPc) : Prop where
  thread : vars .logger ≠ none ↔ pc.Logged
  owed : l = .running → pc.Logged

/-- What is known of the routing table. -/
structure RouterKnows (pc : MainPc) (g : Router) : Prop where
  sound : g.Sound
  empty : pc.Unrouted → g.Empty

/-- A thread that is not alive has given its resources back. -/
theorem ThreadPc.dead_owns {t : ThreadPc} (h : ¬ t.Alive) : t.owns = [] ∧ t.copy = none := by
  cases t with
  | absent => exact ⟨rfl, rfl⟩
  | exited => exact ⟨rfl, rfl⟩
  | _ => exact absurd ⟨nofun, nofun⟩ h

theorem ThreadKnows.dead {k n k' n' i : Nat} {vars vars' : Place → Option Resource} {t : ThreadPc}
    (h : ThreadKnows k n vars i t) (hdead : ¬ t.Alive) (hown : ∀ x, vars' (.own i x) = vars (.own i x)) :
    ThreadKnows k' n' vars' i t := by
  refine ⟨fun x => ?_, h.rest, fun wake hw => ?_, fun halive => absurd halive hdead⟩
  · rw [hown]
    exact h.own x
  · rw [(ThreadPc.dead_owns hdead).2] at hw
    cases hw

theorem LoggerKnows.goto {pc pc' : MainPc} {vars vars' : Place → Option Resource} {l : LoggerPc}
    (h : LoggerKnows pc vars l) (hvars : vars' .logger = vars .logger) (hpc : pc'.Logged ↔ pc.Logged) :
    LoggerKnows pc' vars' l := by
  refine ⟨?_, fun hl => hpc.2 (h.owed hl)⟩
  rw [hvars, hpc]
  exact h.thread

theorem RouterKnows.goto {pc pc' : MainPc} {g : Router} (h : RouterKnows pc g)
    (hun : pc'.Unrouted → pc.Unrouted) : RouterKnows pc' g := ⟨h.sound, fun hpc => h.empty (hun hpc)⟩

namespace Process

/-- What holds in every state: the books are in order, and each part of the state is as its
thread knows it. -/
structure Inv (s : Process) : Prop where
  books : Books s.vars s.log
  main : MainKnows s.main s.vars s.workersStarted
  threads : ∀ i, ThreadKnows s.main.joined s.workersStarted s.vars i (s.threads i)
  router : RouterKnows s.main s.router
  logger : LoggerKnows s.main s.vars s.logger

/-- Before `main` the books are empty. -/
theorem start_inv : start.Inv where
  books := .start
  main := by
    refine ⟨by simp [start, MainPc.Entered], by simp [start], by simp [start, MainPc.Set],
      fun _ _ => rfl, ?_, fun _ => rfl, ?_⟩
    · rintro sizes rest ⟨⟩
    · rintro i ⟨⟩
  threads := by
    intro i
    refine ⟨by simp [start, ThreadPc.owns], .nil, ?_, fun h => absurd rfl h.1⟩
    rintro wake ⟨⟩
  router := ⟨Router.start_sound, fun _ => ⟨rfl, rfl, rfl⟩⟩
  logger := ⟨by simp [start, MainPc.Logged], nofun⟩

/-! ### What leaves the variables alone -/

section Use

variable {s : Process} {p : Place} {i : Nat}

/-- A step that uses a live resource keeps the invariant. -/
theorem Inv.touch (h : s.Inv) (hp : s.vars p ≠ none) : (s.touch p).Inv := by
  obtain ⟨r, hr⟩ := Option.ne_none_iff_exists'.1 hp
  refine ⟨?_, h.main, h.threads, h.router, h.logger⟩
  show Books s.vars (s.log ++ [.use ((s.vars p).getD .null)])
  rw [hr]
  exact h.books.use hr

theorem Inv.touchAll {ps : List Place} : ∀ {s : Process}, s.Inv → (∀ p ∈ ps, s.vars p ≠ none) →
    (ps.foldl Process.touch s).Inv := by
  induction ps with
  | nil => exact fun h _ => h
  | cons p ps ih =>
      intro s h hps
      exact ih (h.touch (hps p List.mem_cons_self)) fun q hq => hps q (List.mem_cons_of_mem p hq)

theorem Inv.useCopy (h : s.Inv) {wake : Resource} (hw : s.vars (.shared .wakeFd) = some wake) :
    (s.useCopy wake).Inv := ⟨h.books.use hw, h.main, h.threads, h.router, h.logger⟩

theorem Inv.setStatus (h : s.Inv) (st : Int) (hp : s.vars (.shared (.pool .workers)) ≠ none) :
    (s.setStatus i st).Inv := by
  obtain ⟨hbooks, hmain, hthreads, hrouter, hlogger⟩ := h.touch hp
  exact ⟨hbooks, hmain, hthreads, hrouter, hlogger⟩

theorem Inv.setStop (h : s.Inv) : Inv { s with stop := true } :=
  ⟨h.books, h.main, h.threads, h.router, h.logger⟩

/-- The write to the eventfd uses an open descriptor. -/
theorem Inv.runtimeNotify (h : s.Inv) : s.runtimeNotify.Inv := by
  unfold Process.runtimeNotify
  split
  · exact h
  · rename_i hp
    exact h.touch hp

end Use

/-! ### Steps of `main` -/

section Main

variable {su : Setup} {s s' : Process} {r : Replies} {p : Place}

/-- A step of `main` while there is no worker: it changes at most one variable, which no worker
has. -/
theorem Inv.solo {p : Place} (h : s.Inv) (halone : s.main.Alone) (hbooks : Books s'.vars s'.log)
    (hsame : s'.threads = s.threads ∧ s'.workersStarted = s.workersStarted)
    (hp : p = .runtime ∨ p = .logger ∨ ∃ x, p = .shared x) (hvars : ∀ q, q ≠ p → s'.vars q = s.vars q)
    (hruntime : s'.vars .runtime ≠ none ↔ s'.main.Entered)
    (hset : ∀ y, s'.main.Set y → s'.vars (.shared y) ≠ none)
    (hcount : ∀ i, s'.main = .creating i → i = 0)
    (hfree : ∀ y, s'.main.Free y → s'.vars (.shared y) = none)
    (hrest : ∀ sizes rest, s'.main = .mapping sizes rest → rest.Nodup)
    (hrouter : RouterKnows s'.main s'.router) (hlogger : LoggerKnows s'.main s'.vars s'.logger) :
    s'.Inv := by
  obtain ⟨hthreads, hn⟩ := hsame
  have hzero := h.main.alone halone
  have hdead : ∀ i, ¬ (s.threads i).Alive := by
    intro i halive
    have hlt := ((h.threads i).owed halive).2
    omega
  have hthread : ∀ i, s'.vars (.thread i) = s.vars (.thread i) := by
    intro i
    apply hvars
    rcases hp with rfl | rfl | ⟨x, rfl⟩
    · simp
    · simp
    · simp
  have hown : ∀ i x, s'.vars (.own i x) = s.vars (.own i x) := by
    intro i x
    apply hvars
    rcases hp with rfl | rfl | ⟨x, rfl⟩
    · simp
    · simp
    · simp
  refine ⟨hbooks, ⟨hruntime, fun i => ?_, ?_, hfree, hrest, fun _ => hn.trans hzero, fun i hi => ?_⟩,
    fun i => ?_, hrouter, hlogger⟩
  · rw [hthread, h.main.threads, hn, hzero]
    exact ⟨fun hi => absurd hi.2 (Nat.not_lt_zero i), fun hi => absurd hi.2 (Nat.not_lt_zero i)⟩
  · rintro y (hy | hpos)
    · exact hset y hy
    · omega
  · rw [hcount i hi]
    exact hn.trans hzero
  · rw [hthreads]
    exact (h.threads i).dead (hdead i) (hown i)

/-- The runtime stays. -/
theorem Inv.stays {pc : MainPc} (h : s.Inv) (hpc : s.main.Inside) (hpc' : pc.Inside) :
    s.vars .runtime ≠ none ↔ pc.Entered := ⟨fun _ => hpc'.1, fun _ => h.main.runtime.2 hpc.1⟩

/-- So does the logger. -/
theorem Inv.logs {pc : MainPc} {vars : Place → Option Resource} (h : s.Inv) (hpc : s.main.Inside)
    (hpc' : pc.Inside) (hvars : vars .logger = s.vars .logger) : LoggerKnows pc vars s.logger :=
  h.logger.goto hvars ⟨fun _ => hpc.2, fun _ => hpc'.2⟩

/-- `main` goes on without a change of the variables. -/
theorem Inv.pass {pc : MainPc} (h : s.Inv) (halone : s.main.Alone)
    (hold : s.main.Inside) (hnew : pc.Inside)
    (hset : ∀ y, pc.Set y → s.vars (.shared y) ≠ none) (hcount : ∀ i, pc = .creating i → i = 0)
    (hfree : ∀ y, pc.Free y → s.main.Free y)
    (hrest : ∀ sizes rest, pc = .mapping sizes rest → rest.Nodup)
    (hun : pc.Unrouted → s.main.Unrouted) : (s.goto pc).Inv :=
  h.solo halone h.books ⟨rfl, rfl⟩ (.inl rfl) (fun _ _ => rfl) (h.stays hold hnew) hset hcount
    (fun y hy => h.main.free y (hfree y hy)) hrest (h.router.goto hun) (h.logs hold hnew rfl)

/-- A step of the set-up fails. -/
theorem Inv.give_up (h : s.Inv) (halone : s.main.Alone) (hpc : s.main.Inside) :
    (s.goto .stopping).Inv := by
  refine h.pass halone hpc ⟨trivial, trivial⟩ ?_ ?_ ?_ ?_ ?_
  · rintro y ⟨⟩
  · rintro i ⟨⟩
  · rintro y ⟨⟩
  · rintro sizes rest ⟨⟩
  · rintro ⟨⟩

/-- A step of the set-up fills the field `x`. -/
theorem Inv.fill {x : Shared} {pc : MainPc} (h : s.Inv) (halone : s.main.Alone) (r : Resource)
    (hx : s.main.Free x) (hold : s.main.Inside) (hnew : pc.Inside)
    (hset : ∀ y, pc.Set y → y ≠ x → s.main.Set y) (hcount : ∀ i, pc ≠ .creating i)
    (hfree : ∀ y, pc.Free y → s.main.Free y ∧ y ≠ x)
    (hrest : ∀ sizes rest, pc = .mapping sizes rest → rest.Nodup)
    (hun : pc.Unrouted → s.main.Unrouted) : ((s.take (.shared x) r).goto pc).Inv := by
  refine h.solo halone (h.books.take (h.main.free x hx) r) ⟨rfl, rfl⟩ (.inr (.inr ⟨x, rfl⟩))
    (fun q hq => ?_) (h.stays hold hnew) (fun y hy => ?_) (fun i hi => absurd hi (hcount i))
    (fun y hy => ?_) hrest (h.router.goto hun) (h.logs hold hnew (by simp [goto, take]))
  · exact Function.update_of_ne hq _ _
  · show Function.update s.vars _ _ _ ≠ none
    by_cases hyx : y = x
    · rw [hyx, Function.update_self]
      nofun
    · rw [Function.update_of_ne (fun he => hyx (Place.shared.inj he))]
      exact h.main.ready y (.inl (hset y hy hyx))
  · obtain ⟨hold, hne⟩ := hfree y hy
    refine Eq.trans (Function.update_of_ne ?_ _ _) (h.main.free y hold)
    rintro ⟨⟩
    exact hne rfl

/-- Each `mmap` of the pools takes its mapping or sends the set-up back. -/
theorem mapping_inv {sizes : PoolSizes} {x : Pool} {rest : List Pool} (h : s.Inv)
    (hpc : s.main = .mapping sizes (x :: rest)) :
    (s.goto (.mapping sizes rest)).Inv ∧ ∀ addr bytes,
      ((s.take (.shared (.pool x)) (.mapping addr bytes)).goto (.mapping sizes rest)).Inv := by
  obtain ⟨hx, hrest⟩ := List.nodup_cons.1 (h.main.rest sizes _ hpc)
  have halone : s.main.Alone := by rw [hpc]; trivial
  have hold : s.main.Inside := by
    rw [hpc]
    exact ⟨trivial, trivial⟩
  have hfree : ∀ y, (MainPc.mapping sizes rest).Free y → s.main.Free y := by
    intro y hy
    rw [hpc]
    cases y with
    | pool y => exact List.mem_cons_of_mem x hy
    | wakeFd => trivial
    | listenFd => trivial
  have hnodup : ∀ sizes' rest', MainPc.mapping sizes rest = .mapping sizes' rest' → rest'.Nodup := by
    rintro sizes' rest' ⟨⟩
    exact hrest
  have hun : (MainPc.mapping sizes rest).Unrouted → s.main.Unrouted := by
    intro _
    rw [hpc]
    trivial
  constructor
  · exact h.pass halone hold ⟨trivial, trivial⟩ nofun nofun hfree hnodup hun
  · intro addr bytes
    refine h.fill halone _ ?_ hold ⟨trivial, trivial⟩ nofun nofun (fun y hy => ⟨hfree y hy, ?_⟩) hnodup hun
    · rw [hpc]
      exact List.mem_cons_self
    · rintro rfl
      exact hx hy

theorem books_drop {p : Place} (h : Books s.vars s.log) (hp : s.vars p ≠ none) :
    Books (s.drop p).vars (s.drop p).log := by
  obtain ⟨r, hr⟩ := Option.ne_none_iff_exists'.1 hp
  show Books (Function.update s.vars p none) (s.log ++ [.give ((s.vars p).getD .null)])
  rw [hr]
  exact h.give hr

/-- `main` is entered. -/
theorem enter_inv {pc : MainPc} (h : s.Inv) (hpc : s.main = .start)
    (hnext : pc = .logShutdown ∨ ∃ sizes, pc = .mapping sizes POOLS) :
    ((s.take .runtime .runtime).goto pc).Inv := by
  have hempty : s.vars .runtime = none := by
    by_contra hne
    have hin := h.main.runtime.1 hne
    rw [hpc] at hin
    exact hin
  have hpc' : pc.Inside ∧ (∀ x, ¬ pc.Set x) ∧ (∀ i, pc ≠ .creating i) ∧
      ∀ sizes rest, pc = .mapping sizes rest → rest.Nodup := by
    rcases hnext with rfl | ⟨sizes, rfl⟩
    · exact ⟨⟨trivial, trivial⟩, fun _ => id, nofun, nofun⟩
    · refine ⟨⟨trivial, trivial⟩, fun _ => id, nofun, ?_⟩
      rintro sizes' rest ⟨⟩
      decide
  obtain ⟨hinside, hset, hcount, hrest⟩ := hpc'
  refine h.solo (by rw [hpc]; trivial) (h.books.take hempty _) ⟨rfl, rfl⟩ (.inl rfl)
    (fun q hq => Function.update_of_ne hq _ _) ?_ (fun y hy => absurd hy (hset y))
    (fun i hi => absurd hi (hcount i)) (fun y _ => ?_) hrest (h.router.goto fun _ => by rw [hpc]; trivial)
    (h.logger.goto (by simp [goto, take]) ?_)
  · show Function.update s.vars .runtime (some .runtime) .runtime ≠ none ↔ _
    rw [Function.update_self]
    exact ⟨fun _ => hinside.1, fun _ => nofun⟩
  · show Function.update s.vars .runtime (some .runtime) (.shared y) = none
    rw [Function.update_of_ne (by simp)]
    apply h.main.free
    rw [hpc]
    trivial
  · rw [hpc]
    exact ⟨fun _ => trivial, fun _ => hinside.2⟩

/-- `main` returns. -/
theorem exit_inv (h : s.Inv) (hpc : s.main = .exiting) : ((s.drop .runtime).goto .done).Inv := by
  have hruntime : s.vars .runtime ≠ none := by
    rw [h.main.runtime, hpc]
    trivial
  refine h.solo (by rw [hpc]; trivial) (books_drop h.books hruntime) ⟨rfl, rfl⟩ (.inl rfl)
    (fun q hq => Function.update_of_ne hq _ _) ?_ nofun nofun (fun y _ => ?_) nofun
    (h.router.goto fun _ => by rw [hpc]; trivial)
    (h.logger.goto (by simp [goto, drop]) (by rw [hpc]; exact Iff.rfl))
  · show Function.update s.vars .runtime none .runtime ≠ none ↔ _
    rw [Function.update_self]
    exact ⟨fun hne => absurd rfl hne, False.elim⟩
  · show Function.update s.vars .runtime none (.shared y) = none
    rw [Function.update_of_ne (by simp)]
    apply h.main.free
    rw [hpc]
    trivial

/-- `tiny_runtime_destroy` gives back a field. -/
theorem release_inv {x : Shared} {rest : List Cleanup} (h : s.Inv)
    (hpc : s.main = .releasing (.shared x :: rest)) :
    ((s.release (.shared x)).goto (.releasing rest)).Inv := by
  have halone : s.main.Alone := by rw [hpc]; trivial
  have hold : s.main.Inside := by
    rw [hpc]
    exact ⟨trivial, trivial⟩
  have hrouter : RouterKnows (.releasing rest) s.router := by
    refine h.router.goto fun hun => ?_
    rw [hpc]
    show Cleanup.routes ∉ Cleanup.shared x :: rest
    rw [List.mem_cons, not_or]
    exact ⟨nofun, hun⟩
  have hfree : ∀ y, y ≠ x → (MainPc.releasing rest).Free y → s.vars (.shared y) = none := by
    intro y hne hy
    apply h.main.free
    rw [hpc]
    show Cleanup.shared y ∉ Cleanup.shared x :: rest
    rw [List.mem_cons, not_or]
    exact ⟨fun he => hne (Cleanup.shared.inj he), hy⟩
  by_cases hx : s.vars (.shared x) = none
  · have hsame : s.release (.shared x) = s := if_pos hx
    rw [hsame]
    refine h.solo halone h.books ⟨rfl, rfl⟩ (.inl rfl) (fun _ _ => rfl)
      (h.stays hold ⟨trivial, trivial⟩) nofun nofun (fun y hy => ?_) nofun hrouter
      (h.logs hold ⟨trivial, trivial⟩ rfl)
    by_cases hyx : y = x
    · rw [hyx]
      exact hx
    · exact hfree y hyx hy
  · have hdrop : s.release (.shared x) = s.drop (.shared x) := if_neg hx
    rw [hdrop]
    refine h.solo halone (books_drop h.books hx) ⟨rfl, rfl⟩ (.inr (.inr ⟨x, rfl⟩))
      (fun q hq => Function.update_of_ne hq _ _) (h.stays hold ⟨trivial, trivial⟩) nofun nofun
      (fun y hy => ?_) nofun hrouter
      (h.logs hold ⟨trivial, trivial⟩ (by simp [goto, drop]))
    show Function.update s.vars _ none (.shared y) = none
    by_cases hyx : y = x
    · rw [hyx, Function.update_self]
    · rw [Function.update_of_ne fun he => hyx (Place.shared.inj he)]
      exact hfree y hyx hy

/-- Between the creation of the workers and the first join, `main` goes on. -/
theorem Inv.onward_inv {pc : MainPc} (h : s.Inv) (hset : ∀ x, s.main.Set x) (halone : ¬ s.main.Alone)
    (hpc : (∃ i, pc = .checking i) ∨ pc = .serving ∨ pc = .stopping) : (s.goto pc).Inv := by
  have hjoined : pc.joined = 0 ∧ s.main.joined = 0 := by
    refine ⟨?_, ?_⟩
    · rcases hpc with ⟨i, rfl⟩ | rfl | rfl
      · rfl
      · rfl
      · rfl
    · cases hm : s.main with
      | joining k =>
          have hk := hset .wakeFd
          rw [hm] at hk
          exact hk.elim
      | _ => rfl
  have hold : s.main.Inside := by
    cases hm : s.main with
    | creating | checking | serving | stopping | joining => exact ⟨trivial, trivial⟩
    | _ =>
        rw [hm] at halone
        exact absurd trivial halone
  have hpc' : pc.Inside ∧ (∀ x, ¬ pc.Free x) ∧ ¬ pc.Alone ∧ ¬ pc.Unrouted ∧
      (∀ i, pc ≠ .creating i) ∧ ∀ sizes rest, pc ≠ .mapping sizes rest := by
    rcases hpc with ⟨i, rfl⟩ | rfl | rfl
    · exact ⟨⟨trivial, trivial⟩, fun _ => id, id, id, nofun, nofun⟩
    · exact ⟨⟨trivial, trivial⟩, fun _ => id, id, id, nofun, nofun⟩
    · exact ⟨⟨trivial, trivial⟩, fun _ => id, id, id, nofun, nofun⟩
  obtain ⟨hnew, hfree, halone', hun, hcount, hmap⟩ := hpc'
  refine ⟨h.books, ⟨h.stays hold hnew, fun i => ?_, fun x _ => ?_, fun x hx => absurd hx (hfree x),
    fun sizes rest he => absurd he (hmap sizes rest), fun ha => absurd ha halone',
    fun i hi => absurd hi (hcount i)⟩, fun i => ?_, h.router.goto fun hu => absurd hu hun,
    h.logs hold hnew rfl⟩
  · show _ ↔ pc.joined ≤ i ∧ _
    rw [hjoined.1, ← hjoined.2]
    exact h.main.threads i
  · exact h.main.ready x (.inl (hset x))
  · have ht := h.threads i
    rw [hjoined.2, ← hjoined.1] at ht
    exact ht

/-- A worker is created. -/
theorem create_inv {i id : Nat} (h : s.Inv) (hpc : s.main = .creating i) :
    ({ (s.take (.thread i) (.thread id)).setThread i .start with
      workersStarted := i + 1 }.goto (.creating (i + 1))).Inv := by
  have hn : s.workersStarted = i := h.main.count i hpc
  have hmain := h.main
  rw [hpc, hn] at hmain
  have hempty : s.vars (.thread i) = none := by
    by_contra hne
    exact absurd ((hmain.threads i).1 hne).2 (Nat.lt_irrefl i)
  have hold : s.main.Inside := by rw [hpc]; exact ⟨trivial, trivial⟩
  refine ⟨h.books.take hempty _, ⟨h.stays hold ⟨trivial, trivial⟩, fun j => ?_, fun x _ => ?_,
    fun _ => False.elim, nofun, False.elim, ?_⟩, fun j => ?_, h.router.goto False.elim,
    h.logs hold ⟨trivial, trivial⟩ (by simp [goto, setThread, take])⟩
  · show Function.update s.vars (.thread i) _ (.thread j) ≠ none ↔ 0 ≤ j ∧ j < i + 1
    by_cases hj : j = i
    · rw [hj, Function.update_self]
      exact ⟨fun _ => ⟨Nat.zero_le i, Nat.lt_succ_self i⟩, fun _ => nofun⟩
    · rw [Function.update_of_ne fun he => hj (Place.thread.inj he), hmain.threads j]
      show 0 ≤ j ∧ j < i ↔ _
      omega
  · exact hmain.ready x (.inl trivial)
  · rintro j ⟨⟩
    rfl
  · have hj := h.threads j
    rw [hpc, hn] at hj
    show ThreadKnows 0 (i + 1) (Function.update s.vars (.thread i) _) j
      (Function.update s.threads i .start j)
    by_cases hji : j = i
    · -- the thread is new
      subst hji
      have hdead : ¬ (s.threads j).Alive := fun halive => Nat.lt_irrefl j (hj.owed halive).2
      rw [Function.update_self]
      refine ⟨fun x => ?_, .nil, nofun, fun _ => ⟨Nat.zero_le j, Nat.lt_succ_self j⟩⟩
      show s.vars (.own j x) ≠ none ↔ _
      rw [hj.own x, (ThreadPc.dead_owns hdead).1]
      exact Iff.rfl
    · rw [Function.update_of_ne hji]
      exact ⟨hj.own, hj.rest, hj.copy, fun halive => ⟨Nat.zero_le j, (hj.owed halive).2.trans (Nat.lt_succ_self i)⟩⟩

/-- A worker that left is joined. -/
theorem join_inv {i : Nat} (h : s.Inv) (hpc : s.main = .joining i) (hlt : i < s.workersStarted)
    (hexited : s.threads i = .exited) : ((s.drop (.thread i)).goto (.joining (i + 1))).Inv := by
  have hmain := h.main
  rw [hpc] at hmain
  have hthread : s.vars (.thread i) ≠ none := (hmain.threads i).2 ⟨Nat.le_refl i, hlt⟩
  have hold : s.main.Inside := by rw [hpc]; exact ⟨trivial, trivial⟩
  refine ⟨books_drop h.books hthread, ⟨h.stays hold ⟨trivial, trivial⟩, fun j => ?_, fun x hx => ?_,
    fun _ => False.elim, nofun, False.elim, nofun⟩, fun j => ?_, h.router.goto False.elim,
    h.logs hold ⟨trivial, trivial⟩ (by simp [goto, drop])⟩
  · show Function.update s.vars (.thread i) none (.thread j) ≠ none ↔ i + 1 ≤ j ∧ j < s.workersStarted
    by_cases hj : j = i
    · rw [hj, Function.update_self]
      exact ⟨fun hne => absurd rfl hne, fun hle => absurd hle.1 (Nat.not_succ_le_self i)⟩
    · rw [Function.update_of_ne fun he => hj (Place.thread.inj he), hmain.threads j]
      show i ≤ j ∧ j < s.workersStarted ↔ _
      omega
  · exact hmain.ready x (hx.imp False.elim id)
  · have hj := h.threads j
    rw [hpc] at hj
    refine ⟨hj.own, hj.rest, hj.copy, fun halive => ?_⟩
    have hle : i ≤ j := (hj.owed halive).1
    have hne : j ≠ i := by
      rintro rfl
      exact halive.2 hexited
    exact ⟨Nat.lt_of_le_of_ne hle (Ne.symm hne), (hj.owed halive).2⟩

/-- All workers are joined. -/
theorem joined_inv {i : Nat} (h : s.Inv) (hpc : s.main = .joining i) (hle : ¬ i < s.workersStarted) :
    ({ s with workersStarted := 0 }.goto (.releasing CLEANUPS)).Inv := by
  have hmain := h.main
  rw [hpc] at hmain
  have hold : s.main.Inside := by rw [hpc]; exact ⟨trivial, trivial⟩
  refine ⟨h.books, ⟨h.stays hold ⟨trivial, trivial⟩, fun j => ?_, fun x hx => ?_, fun x hx => ?_,
    nofun, fun _ => rfl, nofun⟩, fun j => ?_, h.router.goto fun hun => absurd (by decide) hun,
    h.logs hold ⟨trivial, trivial⟩ rfl⟩
  · refine (hmain.threads j).trans ?_
    show i ≤ j ∧ j < s.workersStarted ↔ 0 ≤ j ∧ j < 0
    omega
  · rcases hx with hx | hx
    · exact hx.elim
    · exact absurd hx (Nat.lt_irrefl 0)
  · have hmem : Cleanup.shared x ∈ CLEANUPS := by
      cases x with
      | pool x => cases x <;> decide
      | wakeFd => decide
      | listenFd => decide
    exact absurd hmem hx
  · have hj := h.threads j
    rw [hpc] at hj
    refine ⟨hj.own, hj.rest, hj.copy, fun halive => ?_⟩
    have howed : i ≤ j ∧ j < s.workersStarted := hj.owed halive
    omega

/-- `tiny_runtime_destroy` starts to join. -/
theorem stop_inv (h : s.Inv) (hpc : s.main = .stopping) (hpos : 0 < s.workersStarted) :
    (s.goto (.joining 0)).Inv := by
  have hmain := h.main
  have hthreads := h.threads
  rw [hpc] at hmain hthreads
  have hold : s.main.Inside := by rw [hpc]; exact ⟨trivial, trivial⟩
  exact ⟨h.books, ⟨h.stays hold ⟨trivial, trivial⟩, hmain.threads, fun x _ => hmain.ready x (.inr hpos),
    fun _ => False.elim, nofun, False.elim, nofun⟩, hthreads, h.router.goto False.elim,
    h.logs hold ⟨trivial, trivial⟩ rfl⟩

/-- It has no worker to join. -/
theorem stop_alone_inv (h : s.Inv) (hpc : s.main = .stopping) (hzero : s.workersStarted = 0) :
    (s.goto (.releasing CLEANUPS)).Inv := by
  have hmain := h.main
  have hthreads := h.threads
  rw [hpc] at hmain hthreads
  have hold : s.main.Inside := by rw [hpc]; exact ⟨trivial, trivial⟩
  refine ⟨h.books, ⟨h.stays hold ⟨trivial, trivial⟩, hmain.threads,
    fun x hx => hmain.ready x (hx.imp False.elim id), fun x hx => ?_, nofun, fun _ => hzero, nofun⟩,
    hthreads, h.router.goto fun hun => absurd (by decide) hun, h.logs hold ⟨trivial, trivial⟩ rfl⟩
  · have hmem : Cleanup.shared x ∈ CLEANUPS := by
      cases x with
      | pool x => cases x <;> decide
      | wakeFd => decide
      | listenFd => decide
    exact absurd hmem hx

theorem Inv.touch_shared (h : s.Inv) (x : Shared) (hx : s.main.Set x) : (s.touch (.shared x)).Inv :=
  h.touch (h.main.ready x (.inl hx))

/-! ### `main`, call by call -/

/-- The logger is created. -/
theorem logInit_inv (h : s.Inv) (hstep : s.mainStep su r = some s') (hpc : s.main = .logInit) :
    s'.Inv := by
  have halone : s.main.Alone := by rw [hpc]; trivial
  have hruntime : s.vars .runtime = none := by
    by_contra hne
    have hin := h.main.runtime.1 hne
    rw [hpc] at hin
    exact hin
  have hempty : s.vars .logger = none := by
    by_contra hne
    have hin := h.logger.thread.1 hne
    rw [hpc] at hin
    exact hin
  have hfree : ∀ y, s.vars (.shared y) = none := fun y => h.main.free y (by rw [hpc]; trivial)
  have hrouter : ∀ pc, RouterKnows pc s.router := fun _ => h.router.goto fun _ => by rw [hpc]; trivial
  unfold mainStep at hstep
  rw [hpc] at hstep
  simp only at hstep
  split at hstep
  · cases hstep
    refine h.solo halone h.books ⟨rfl, rfl⟩ (.inl rfl) (fun _ _ => rfl) ?_ nofun nofun
      (fun y _ => hfree y) nofun (hrouter _) (h.logger.goto rfl (by rw [hpc]; exact Iff.rfl))
    exact ⟨fun hne => absurd hruntime hne, False.elim⟩
  · rename_i id _
    cases hstep
    refine h.solo halone (h.books.take hempty _) ⟨rfl, rfl⟩ (.inr (.inl rfl))
      (fun q hq => Function.update_of_ne hq _ _) ?_ nofun nofun (fun y _ => ?_) nofun (hrouter _) ?_
    · show Function.update s.vars .logger (some (.thread id)) .runtime ≠ none ↔ _
      rw [Function.update_of_ne (by simp)]
      exact ⟨fun hne => absurd hruntime hne, False.elim⟩
    · show Function.update s.vars .logger (some (.thread id)) (.shared y) = none
      rw [Function.update_of_ne (by simp)]
      exact hfree y
    · refine ⟨⟨fun _ => trivial, fun _ => ?_⟩, fun _ => trivial⟩
      show Function.update s.vars .logger (some (.thread id)) .logger ≠ none
      rw [Function.update_self]
      nofun

/-- The sizes of the pools are computed. -/
theorem sizes_inv (h : s.Inv) (hstep : s.mainStep su r = some s') (hpc : s.main = .start) :
    s'.Inv := by
  unfold mainStep at hstep
  rw [hpc] at hstep
  simp only at hstep
  split at hstep
  · split at hstep
    · cases hstep
      exact enter_inv h hpc (.inl rfl)
    · cases hstep
      exact enter_inv h hpc (.inr ⟨_, rfl⟩)
  · cases hstep
    exact enter_inv h hpc (.inl rfl)

/-- A pool is mapped, or all of them were. -/
theorem pool_inv {z : PoolSizes} {rest : List Pool} (h : s.Inv) (hstep : s.mainStep su r = some s')
    (hpc : s.main = .mapping z rest) : s'.Inv := by
  have halone : s.main.Alone := by rw [hpc]; trivial
  have hold : s.main.Inside := by
    rw [hpc]
    exact ⟨trivial, trivial⟩
  unfold mainStep at hstep
  rw [hpc] at hstep
  cases rest with
  | cons x rest =>
      obtain ⟨hpass, hfill⟩ := mapping_inv h hpc
      simp only at hstep
      split at hstep
      · cases hstep
        exact hpass
      · cases hstep
        exact hfill _ _
  | nil =>
      simp only at hstep
      split at hstep
      · rename_i hall
        cases hstep
        have hpool : ∀ x, s.vars (.shared (.pool x)) ≠ none := by
          intro x
          have hx : x ∈ POOLS := by cases x <;> decide
          exact Option.isSome_iff_ne_none.1 (List.all_eq_true.1 hall x hx)
        have htouched : (POOLS.foldl (fun s x => s.touch (.shared (.pool x))) s).Inv :=
          (((h.touch (hpool .workers)).touch (hpool .slots)).touch (hpool .bump)).touch (hpool .queue)
        refine htouched.pass halone hold ⟨trivial, trivial⟩ ?_ nofun ?_ nofun fun _ => ?_
        · rintro y ⟨x, rfl⟩
          exact hpool x
        · rintro y (rfl | rfl)
          · show s.main.Free .wakeFd
            rw [hpc]
            trivial
          · show s.main.Free .listenFd
            rw [hpc]
            trivial
        · show s.main.Unrouted
          rw [hpc]
          trivial
      · cases hstep
        exact h.give_up halone hold

/-- The routing table is built. -/
theorem table_inv (h : s.Inv) (hstep : s.mainStep su r = some s') (hpc : s.main = .routes) :
    s'.Inv := by
  have halone : s.main.Alone := by rw [hpc]; trivial
  have hold : s.main.Inside := by
    rw [hpc]
    exact ⟨trivial, trivial⟩
  have hsound := (Router.routesInit_sound h.router.sound r.kinds r.fds (some su.site)).1
  unfold mainStep at hstep
  rw [hpc] at hstep
  simp only at hstep
  split at hstep
  · cases hstep
    exact h.solo halone h.books ⟨rfl, rfl⟩ (.inl rfl) (fun _ _ => rfl)
      (h.stays hold ⟨trivial, trivial⟩) nofun nofun nofun nofun ⟨hsound, False.elim⟩
      (h.logs hold ⟨trivial, trivial⟩ rfl)
  · cases hstep
    refine h.solo halone h.books ⟨rfl, rfl⟩ (.inl rfl) (fun _ _ => rfl)
      (h.stays hold ⟨trivial, trivial⟩) (fun y hy => h.main.ready y (.inl ?_)) nofun
      (fun y hy => h.main.free y ?_) nofun ⟨hsound, False.elim⟩ (h.logs hold ⟨trivial, trivial⟩ rfl)
    · rw [hpc]
      exact hy
    · rw [hpc]
      exact hy

/-- The eventfd is opened. -/
theorem wake_inv (h : s.Inv) (hstep : s.mainStep su r = some s') (hpc : s.main = .wake) : s'.Inv := by
  have halone : s.main.Alone := by rw [hpc]; trivial
  have hold : s.main.Inside := by
    rw [hpc]
    exact ⟨trivial, trivial⟩
  unfold mainStep at hstep
  rw [hpc] at hstep
  simp only at hstep
  split at hstep
  · cases hstep
    exact h.give_up halone hold
  · cases hstep
    refine h.fill halone _ ?_ hold ⟨trivial, trivial⟩ ?_ nofun ?_ nofun False.elim
    · rw [hpc]
      exact .inl rfl
    · intro y hy hne
      rw [hpc]
      cases y with
      | pool y => exact ⟨y, rfl⟩
      | wakeFd => exact absurd rfl hne
      | listenFd => exact absurd rfl hy
    · rintro y rfl
      rw [hpc]
      exact ⟨.inr rfl, nofun⟩

/-- The listening socket is opened. -/
theorem socket_inv (h : s.Inv) (hstep : s.mainStep su r = some s') (hpc : s.main = .socket) :
    s'.Inv := by
  have halone : s.main.Alone := by rw [hpc]; trivial
  have hold : s.main.Inside := by
    rw [hpc]
    exact ⟨trivial, trivial⟩
  unfold mainStep at hstep
  rw [hpc] at hstep
  simp only at hstep
  split at hstep
  · cases hstep
    exact h.give_up halone hold
  · cases hstep
    refine h.fill halone _ ?_ hold ⟨trivial, trivial⟩ ?_ nofun (fun _ => False.elim) nofun False.elim
    · rw [hpc]
      exact rfl
    · intro y _ hne
      rw [hpc]
      exact hne

/-- It is bound, or closed again. -/
theorem bind_inv (h : s.Inv) (hstep : s.mainStep su r = some s') (hpc : s.main = .bind) : s'.Inv := by
  have halone : s.main.Alone := by rw [hpc]; trivial
  have hold : s.main.Inside := by
    rw [hpc]
    exact ⟨trivial, trivial⟩
  have hset : ∀ x, s.vars (.shared x) ≠ none := fun x => h.main.ready x (.inl (by rw [hpc]; trivial))
  have htouch := h.touch (hset .listenFd)
  unfold mainStep at hstep
  rw [hpc] at hstep
  simp only at hstep
  split at hstep
  · cases hstep
    exact htouch.solo halone (books_drop htouch.books (hset .listenFd)) ⟨rfl, rfl⟩
      (.inr (.inr ⟨.listenFd, rfl⟩)) (fun q hq => Function.update_of_ne hq _ _)
      (h.stays hold ⟨trivial, trivial⟩) nofun nofun nofun nofun (h.router.goto False.elim)
      (h.logs hold ⟨trivial, trivial⟩ (by simp [goto, drop, touch]))
  · cases hstep
    refine htouch.pass halone hold ⟨trivial, trivial⟩ (fun y _ => hset y) ?_ (fun _ => False.elim) nofun
      False.elim
    rintro i ⟨⟩
    rfl

/-- `stop` is set, and the workers are woken. -/
theorem Inv.stopped {n : Nat} (h : s.Inv) (hn : s.workersStarted = n) (hset : ∀ x, s.main.Set x)
    (halone : ¬ s.main.Alone) :
    ({ s with workersStarted := n, stop := true }.runtimeNotify.goto .stopping).Inv := by
  have hstop : Inv { s with workersStarted := n, stop := true } := by
    rw [← hn]
    exact h.setStop
  refine hstop.runtimeNotify.onward_inv ?_ ?_ (.inr (.inr rfl))
  · unfold Process.runtimeNotify
    split
    · exact hset
    · exact hset
  · unfold Process.runtimeNotify
    split
    · exact halone
    · exact halone

/-- A worker is created, or the others are stopped. -/
theorem creating_inv {i : Nat} (h : s.Inv) (hstep : s.mainStep su r = some s')
    (hpc : s.main = .creating i) : s'.Inv := by
  have hset : ∀ x, s.main.Set x := fun x => by rw [hpc]; trivial
  have halone : ¬ s.main.Alone := by rw [hpc]; exact id
  unfold mainStep at hstep
  rw [hpc] at hstep
  simp only at hstep
  rw [← hpc] at hstep
  split at hstep
  · split at hstep
    · cases hstep
      exact h.stopped (h.main.count i hpc) hset halone
    · cases hstep
      exact create_inv (h.touch (h.main.ready _ (.inl (hset _)))) hpc
  · cases hstep
    exact h.onward_inv hset halone (.inl ⟨0, rfl⟩)

/-- `main` waits for the worker `i` to start. -/
theorem checking_inv {i : Nat} (h : s.Inv) (hstep : s.mainStep su r = some s')
    (hpc : s.main = .checking i) : s'.Inv := by
  have hset : ∀ x, s.main.Set x := fun x => by rw [hpc]; trivial
  have halone : ¬ s.main.Alone := by rw [hpc]; exact id
  have htouch := h.touch_shared (.pool .workers) (hset _)
  unfold mainStep at hstep
  rw [hpc] at hstep
  simp only at hstep
  split at hstep
  · split at hstep
    · cases hstep
      exact htouch.onward_inv hset halone (.inl ⟨i + 1, rfl⟩)
    · split at hstep
      · cases hstep
        exact htouch.stopped rfl hset halone
      · cases hstep
        exact htouch
  · cases hstep
    exact h.onward_inv hset halone (.inr (.inl rfl))

/-- A connection is accepted, or `main` leaves the loop. -/
theorem serving_inv (h : s.Inv) (hstep : s.mainStep su r = some s') (hpc : s.main = .serving) :
    s'.Inv := by
  have hset : ∀ x, s.main.Set x := fun x => by rw [hpc]; trivial
  have halone : ¬ s.main.Alone := by rw [hpc]; exact id
  have htouch := h.touch_shared .listenFd (hset _)
  unfold mainStep at hstep
  rw [hpc] at hstep
  simp only at hstep
  split at hstep
  · cases hstep
    exact h.onward_inv hset halone (.inr (.inr rfl))
  · split at hstep
    · cases hstep
      exact htouch
    · cases hstep
      exact (htouch.touch_shared (.pool .queue) (hset _)).runtimeNotify

/-- `tiny_runtime_destroy` begins. -/
theorem stopping_inv (h : s.Inv) (hstep : s.mainStep su r = some s') (hpc : s.main = .stopping) :
    s'.Inv := by
  have hnotify := h.setStop.runtimeNotify
  have hsame : ({ s with stop := true }.runtimeNotify).main = s.main ∧
      ({ s with stop := true }.runtimeNotify).vars = s.vars ∧
      ({ s with stop := true }.runtimeNotify).workersStarted = s.workersStarted := by
    unfold runtimeNotify
    split
    · exact ⟨rfl, rfl, rfl⟩
    · exact ⟨rfl, rfl, rfl⟩
  obtain ⟨hmain, hvars, hn⟩ := hsame
  unfold mainStep at hstep
  rw [hpc] at hstep
  simp only at hstep
  rw [← hpc] at hstep
  split at hstep
  · rename_i hsome
    cases hstep
    exact stop_inv hnotify (hmain.trans hpc) hsome.2
  · rename_i hnone
    cases hstep
    refine stop_alone_inv hnotify (hmain.trans hpc) ?_
    by_contra hne
    have hpos := Nat.pos_of_ne_zero hne
    exact hnone ⟨hnotify.main.ready _ (.inr hpos), hpos⟩

/-- A worker is joined, or all of them were. -/
theorem joining_inv {i : Nat} (h : s.Inv) (hstep : s.mainStep su r = some s')
    (hpc : s.main = .joining i) : s'.Inv := by
  unfold mainStep at hstep
  rw [hpc] at hstep
  simp only at hstep
  split at hstep
  · rename_i hlt
    split at hstep
    · rename_i hexited
      cases hstep
      have hpos : 0 < s.workersStarted := Nat.zero_lt_of_lt hlt
      exact join_inv (h.touch (h.main.ready _ (.inr hpos))) hpc hlt hexited
    · cases hstep
  · rename_i hle
    cases hstep
    exact joined_inv h hpc hle

/-- `tiny_runtime_destroy` gives back what is left. -/
theorem releasing_inv {rest : List Cleanup} (h : s.Inv) (hstep : s.mainStep su r = some s')
    (hpc : s.main = .releasing rest) : s'.Inv := by
  have halone : s.main.Alone := by rw [hpc]; trivial
  have hold : s.main.Inside := by
    rw [hpc]
    exact ⟨trivial, trivial⟩
  unfold mainStep at hstep
  rw [hpc] at hstep
  cases rest with
  | nil =>
      cases hstep
      refine h.pass halone hold ⟨trivial, trivial⟩ nofun nofun (fun y _ => ?_) nofun fun _ => ?_
      · rw [hpc]
        exact List.not_mem_nil
      · rw [hpc]
        exact List.not_mem_nil
  | cons c rest =>
      cases c with
      | shared x =>
          cases hstep
          exact release_inv h hpc
      | routes =>
          cases hstep
          refine h.solo halone h.books ⟨rfl, rfl⟩ (.inl rfl) (fun _ _ => rfl)
            (h.stays hold ⟨trivial, trivial⟩) nofun nofun (fun y hy => h.main.free y ?_) nofun
            ⟨h.router.sound.shutdown, fun _ => Router.routesShutdown_empty h.router.sound.rooted⟩
            (h.logs hold ⟨trivial, trivial⟩ rfl)
          rw [hpc]
          show Cleanup.shared y ∉ Cleanup.routes :: rest
          rw [List.mem_cons, not_or]
          exact ⟨nofun, hy⟩

/-- The logger is told to stop. -/
theorem logShutdown_inv (h : s.Inv) (hstep : s.mainStep su r = some s') (hpc : s.main = .logShutdown) :
    s'.Inv := by
  have halone : s.main.Alone := by rw [hpc]; trivial
  have hold : s.main.Inside := by
    rw [hpc]
    exact ⟨trivial, trivial⟩
  have hlogger : s.vars .logger ≠ none := h.logger.thread.2 hold.2
  have hfree : ∀ y, s.vars (.shared y) = none := fun y => h.main.free y (by rw [hpc]; trivial)
  unfold mainStep at hstep
  rw [hpc] at hstep
  simp only at hstep
  rw [if_neg hlogger] at hstep
  cases hstep
  exact h.solo halone h.books ⟨rfl, rfl⟩ (.inl rfl) (fun _ _ => rfl) (h.stays hold ⟨trivial, trivial⟩)
    nofun nofun (fun y _ => hfree y) nofun (h.router.goto fun _ => by rw [hpc]; trivial)
    (h.logs hold ⟨trivial, trivial⟩ rfl)

/-- The logger is joined. -/
theorem logJoin_inv (h : s.Inv) (hstep : s.mainStep su r = some s') (hpc : s.main = .logJoin) :
    s'.Inv := by
  have halone : s.main.Alone := by rw [hpc]; trivial
  have hold : s.main.Inside := by
    rw [hpc]
    exact ⟨trivial, trivial⟩
  have hlogger : s.vars .logger ≠ none := h.logger.thread.2 hold.2
  have hruntime : s.vars .runtime ≠ none := h.main.runtime.2 hold.1
  unfold mainStep at hstep
  rw [hpc] at hstep
  simp only at hstep
  split at hstep
  · rename_i hexited
    cases hstep
    refine h.solo halone (books_drop h.books hlogger) ⟨rfl, rfl⟩ (.inr (.inl rfl))
      (fun q hq => Function.update_of_ne hq _ _) ?_ nofun nofun (fun y _ => ?_) nofun
      (h.router.goto fun _ => by rw [hpc]; trivial) ?_
    · show Function.update s.vars .logger none .runtime ≠ none ↔ _
      rw [Function.update_of_ne (by simp)]
      exact ⟨fun _ => trivial, fun _ => hruntime⟩
    · show Function.update s.vars .logger none (.shared y) = none
      rw [Function.update_of_ne (by simp)]
      exact h.main.free y (by rw [hpc]; trivial)
    · refine ⟨⟨fun hne => absurd ?_ hne, False.elim⟩, fun hl => ?_⟩
      · show Function.update s.vars .logger none .logger = none
        rw [Function.update_self]
      · have hl : s.logger = .running := hl
        rw [hexited] at hl
        cases hl
  · cases hstep

/-- Every step of `main` keeps the invariant. -/
theorem mainStep_inv (h : s.Inv) (hstep : s.mainStep su r = some s') : s'.Inv := by
  cases hpc : s.main with
  | logInit => exact logInit_inv h hstep hpc
  | start => exact sizes_inv h hstep hpc
  | mapping z rest => exact pool_inv h hstep hpc
  | routes => exact table_inv h hstep hpc
  | wake => exact wake_inv h hstep hpc
  | socket => exact socket_inv h hstep hpc
  | bind => exact bind_inv h hstep hpc
  | creating i => exact creating_inv h hstep hpc
  | checking i => exact checking_inv h hstep hpc
  | serving => exact serving_inv h hstep hpc
  | stopping => exact stopping_inv h hstep hpc
  | joining i => exact joining_inv h hstep hpc
  | releasing rest => exact releasing_inv h hstep hpc
  | logShutdown => exact logShutdown_inv h hstep hpc
  | logJoin => exact logJoin_inv h hstep hpc
  | exiting =>
      unfold mainStep at hstep
      rw [hpc] at hstep
      cases hstep
      exact exit_inv h hpc
  | done =>
      unfold mainStep at hstep
      rw [hpc] at hstep
      cases hstep

end Main

/-! ### Steps of the workers -/

section Thread

variable {su : Setup} {s s' : Process} {i : Nat} {t : ThreadPc}

/-- While a worker is there, so is what it uses. -/
theorem Inv.alive (h : s.Inv) (ht : (s.threads i).Alive) :
    (∀ x, s.vars (.shared x) ≠ none) ∧ s.vars .runtime ≠ none := by
  have howed := (h.threads i).owed ht
  have hpos : 0 < s.workersStarted := Nat.zero_lt_of_lt howed.2
  have hmain : ¬ s.main.Alone := by
    intro halone
    have hzero := h.main.alone halone
    omega
  refine ⟨fun x => h.main.ready x (.inr hpos), h.main.runtime.2 ?_⟩
  cases hpc : s.main with
  | logInit | start | done =>
      rw [hpc] at hmain
      exact absurd trivial hmain
  | _ => trivial

/-- The worker `i` goes on, with what it has in `vars`. -/
theorem Inv.own_step (h : s.Inv) (ht : (s.threads i).Alive) (hbooks : Books s'.vars s'.log)
    (hsame : s'.main = s.main ∧ s'.workersStarted = s.workersStarted ∧ s'.router = s.router ∧
      s'.logger = s.logger)
    (hthreads : s'.threads = Function.update s.threads i t)
    (hvars : ∀ p, (∀ x, p ≠ .own i x) → s'.vars p = s.vars p)
    (hown : ∀ x, s'.vars (.own i x) ≠ none ↔ x ∈ t.owns) (hrest : t.owns.Nodup)
    (hcopy : ∀ wake, t.copy = some wake → s.vars (.shared .wakeFd) = some wake) : s'.Inv := by
  obtain ⟨hmain, hn, hrouter, hlogger⟩ := hsame
  refine ⟨hbooks, ?_, fun j => ?_, ?_, ?_⟩
  · rw [hmain, hn]
    refine ⟨?_, fun j => ?_, fun x hx => ?_, fun x hx => ?_, h.main.rest, h.main.alone, h.main.count⟩
    · rw [hvars .runtime (by simp)]
      exact h.main.runtime
    · rw [hvars (.thread j) (by simp)]
      exact h.main.threads j
    · rw [hvars (.shared x) (by simp)]
      exact h.main.ready x hx
    · rw [hvars (.shared x) (by simp)]
      exact h.main.free x hx
  · rw [hmain, hn, hthreads]
    by_cases hj : j = i
    · subst hj
      rw [Function.update_self]
      refine ⟨hown, hrest, fun wake hw => ?_, fun _ => (h.threads j).owed ht⟩
      rw [hvars _ (by simp)]
      exact hcopy wake hw
    · rw [Function.update_of_ne hj]
      have hold := h.threads j
      refine ⟨fun x => ?_, hold.rest, fun wake hw => ?_, hold.owed⟩
      · rw [hvars (.own j x) fun y he => hj (Place.own.inj he).1]
        exact hold.own x
      · rw [hvars _ (by simp)]
        exact hold.copy wake hw
  · rw [hmain, hrouter]
    exact h.router
  · rw [hmain, hlogger]
    exact h.logger.goto (hvars .logger (by simp)) Iff.rfl

/-- It goes on with what it has. -/
theorem Inv.moves (h : s.Inv) (ht : (s.threads i).Alive) (howns : t.owns = (s.threads i).owns)
    (hcopy : ∀ wake, t.copy = some wake → s.vars (.shared .wakeFd) = some wake) :
    (s.setThread i t).Inv := by
  refine h.own_step ht h.books ⟨rfl, rfl, rfl, rfl⟩ rfl (fun _ _ => rfl) (fun x => ?_) ?_ hcopy
  · rw [howns]
    exact (h.threads i).own x
  · rw [howns]
    exact (h.threads i).rest

/-- It takes something. -/
theorem Inv.takes {x : Own} (h : s.Inv) (ht : (s.threads i).Alive) (r : Resource)
    (hx : x ∉ (s.threads i).owns) (howns : t.owns = x :: (s.threads i).owns)
    (hcopy : ∀ wake, t.copy = some wake → s.vars (.shared .wakeFd) = some wake) :
    ((s.take (.own i x) r).setThread i t).Inv := by
  have hempty : s.vars (.own i x) = none := by
    by_contra hne
    exact hx (((h.threads i).own x).1 hne)
  refine h.own_step ht (h.books.take hempty r) ⟨rfl, rfl, rfl, rfl⟩ rfl
    (fun p hp => Function.update_of_ne (hp x) _ _) (fun y => ?_) ?_ hcopy
  · show Function.update s.vars (.own i x) (some r) (.own i y) ≠ none ↔ _
    rw [howns, List.mem_cons]
    by_cases hy : y = x
    · rw [hy, Function.update_self]
      exact ⟨fun _ => .inl rfl, fun _ => nofun⟩
    · rw [Function.update_of_ne fun he => hy (Place.own.inj he).2, (h.threads i).own y]
      exact ⟨.inr, fun hmem => hmem.resolve_left hy⟩
  · rw [howns]
    exact List.nodup_cons.2 ⟨hx, (h.threads i).rest⟩

/-- It gives something back. -/
theorem Inv.drops {x : Own} (h : s.Inv) (ht : (s.threads i).Alive)
    (howns : (s.threads i).owns = x :: t.owns) (hcopy : t.copy = none) :
    ((s.drop (.own i x)).setThread i t).Inv := by
  have hown := (h.threads i).own
  have hnodup := (h.threads i).rest
  rw [howns] at hown hnodup
  obtain ⟨hx, hrest⟩ := List.nodup_cons.1 hnodup
  refine h.own_step ht (books_drop h.books ((hown x).2 List.mem_cons_self)) ⟨rfl, rfl, rfl, rfl⟩ rfl
    (fun p hp => Function.update_of_ne (hp x) _ _) (fun y => ?_) hrest fun wake hw => ?_
  · show Function.update s.vars (.own i x) none (.own i y) ≠ none ↔ _
    by_cases hy : y = x
    · rw [hy, Function.update_self]
      exact ⟨fun hne => absurd rfl hne, fun hmem => absurd hmem hx⟩
    · rw [Function.update_of_ne fun he => hy (Place.own.inj he).2, hown y, List.mem_cons]
      exact ⟨fun hmem => hmem.resolve_left hy, .inr⟩
  · rw [hcopy] at hw
    cases hw

/-- It returns with nothing left. -/
theorem Inv.fails (h : s.Inv) (ht : (s.threads i).Alive) (howns : (s.threads i).owns = []) :
    (s.failAtOnce i).Inv :=
  (h.setStatus (-1) ((h.alive ht).1 _)).moves ht howns.symm nofun

/-- The worker has entered `tiny_worker_main`. -/
theorem entered_inv {value : Option Nat} (h : s.Inv) (hstep : s.threadStep su i value = some s')
    (hpc : s.threads i = .start) : s'.Inv := by
  have ht : (s.threads i).Alive := by rw [hpc]; exact ⟨nofun, nofun⟩
  obtain ⟨hshared, hruntime⟩ := h.alive ht
  unfold threadStep at hstep
  rw [hpc] at hstep
  cases hstep
  have htouch := (h.touch (hshared (.pool .workers))).touch hruntime
  refine htouch.moves ht ?_ ?_
  · show [] = (s.threads i).owns
    rw [hpc]
    rfl
  · rintro wake ⟨⟩
    obtain ⟨w, hw⟩ := Option.ne_none_iff_exists'.1 (hshared .wakeFd)
    show s.vars (.shared .wakeFd) = some ((s.vars (.shared .wakeFd)).getD .null)
    rw [hw]
    rfl

/-- It maps its free stack. -/
theorem stack_inv {value : Option Nat} {wake : Resource} (h : s.Inv)
    (hstep : s.threadStep su i value = some s') (hpc : s.threads i = .stack wake) : s'.Inv := by
  have ht : (s.threads i).Alive := by rw [hpc]; exact ⟨nofun, nofun⟩
  obtain ⟨hshared, hruntime⟩ := h.alive ht
  have howns : (s.threads i).owns = [] := by rw [hpc]; rfl
  have hcopy := (h.threads i).copy
  unfold threadStep at hstep
  rw [hpc] at hstep hcopy
  simp only at hstep
  split at hstep
  · cases hstep
    exact h.fails ht howns
  · split at hstep
    · cases hstep
      exact h.fails ht howns
    · cases hstep
      have htaken : ∀ r, (((s.touch (.shared (.pool .workers))).take (.own i .freeStack) r).setThread i
          (.events wake)).Inv := by
        intro r
        refine (h.touch (hshared (.pool .workers))).takes ht r ?_ ?_ hcopy
        · show Own.freeStack ∉ (s.threads i).owns
          rw [howns]
          exact List.not_mem_nil
        · show [Own.freeStack] = .freeStack :: (s.threads i).owns
          rw [howns]
      refine (htaken _).touch (p := .own i .freeStack) ?_
      show Function.update s.vars (.own i .freeStack) _ (.own i .freeStack) ≠ none
      rw [Function.update_self]
      nofun

/-- It maps its events. -/
theorem events_inv {value : Option Nat} {wake : Resource} (h : s.Inv)
    (hstep : s.threadStep su i value = some s') (hpc : s.threads i = .events wake) : s'.Inv := by
  have ht : (s.threads i).Alive := by rw [hpc]; exact ⟨nofun, nofun⟩
  have howns : (s.threads i).owns = [.freeStack] := by rw [hpc]; rfl
  have hcopy := (h.threads i).copy
  unfold threadStep at hstep
  rw [hpc] at hstep hcopy
  simp only at hstep
  split at hstep
  · cases hstep
    exact h.moves ht howns.symm nofun
  · split at hstep
    · cases hstep
      exact h.moves ht howns.symm nofun
    · cases hstep
      refine h.takes ht _ ?_ ?_ hcopy
      · rw [howns]
        decide
      · rw [howns]
        rfl

/-- It opens its epoll instance. -/
theorem epoll_inv {value : Option Nat} {wake : Resource} (h : s.Inv)
    (hstep : s.threadStep su i value = some s') (hpc : s.threads i = .epoll wake) : s'.Inv := by
  have ht : (s.threads i).Alive := by rw [hpc]; exact ⟨nofun, nofun⟩
  have howns : (s.threads i).owns = [.events, .freeStack] := by rw [hpc]; rfl
  have hcopy := (h.threads i).copy
  unfold threadStep at hstep
  rw [hpc] at hstep hcopy
  simp only at hstep
  split at hstep
  · cases hstep
    exact h.moves ht howns.symm nofun
  · cases hstep
    refine h.takes ht _ ?_ ?_ hcopy
    · rw [howns]
      decide
    · rw [howns]
      rfl

/-- It registers the eventfd. -/
theorem watch_inv {value : Option Nat} {wake : Resource} (h : s.Inv)
    (hstep : s.threadStep su i value = some s') (hpc : s.threads i = .watch wake) : s'.Inv := by
  have ht : (s.threads i).Alive := by rw [hpc]; exact ⟨nofun, nofun⟩
  obtain ⟨hshared, -⟩ := h.alive ht
  have howns : (s.threads i).owns = [.epfd, .events, .freeStack] := by rw [hpc]; rfl
  have hepfd : s.vars (.own i .epfd) ≠ none := by
    rw [(h.threads i).own, howns]
    exact List.mem_cons_self
  have hcopy := (h.threads i).copy
  unfold threadStep at hstep
  rw [hpc] at hstep hcopy
  have hused := (h.touch hepfd).useCopy (hcopy wake rfl)
  simp only at hstep
  split at hstep
  · cases hstep
    exact hused.moves ht howns.symm nofun
  · cases hstep
    exact (hused.setStatus 1 (hshared _)).moves ht howns.symm hcopy

/-- It serves its connections until `stop` is set. -/
theorem top_inv {value : Option Nat} {wake : Resource} (h : s.Inv)
    (hstep : s.threadStep su i value = some s') (hpc : s.threads i = .top wake) : s'.Inv := by
  have ht : (s.threads i).Alive := by rw [hpc]; exact ⟨nofun, nofun⟩
  obtain ⟨hshared, hruntime⟩ := h.alive ht
  have howns : (s.threads i).owns = [.epfd, .events, .freeStack] := by rw [hpc]; rfl
  have hown : ∀ x, s.vars (.own i x) ≠ none := by
    intro x
    rw [(h.threads i).own, howns]
    cases x <;> decide
  have hcopy := (h.threads i).copy
  have htouch := h.touch hruntime
  unfold threadStep at hstep
  rw [hpc] at hstep hcopy
  simp only at hstep
  split at hstep
  · cases hstep
    exact (htouch.touch (p := .shared (.pool .slots)) (hshared _)).moves ht howns.symm nofun
  · have hserve : ((s.touch .runtime).serve i wake).Inv := by
      refine Inv.useCopy (htouch.touchAll fun p hp => ?_) (hcopy wake rfl)
      simp only [List.mem_cons, List.not_mem_nil, or_false] at hp
      rcases hp with rfl | rfl | rfl | rfl | rfl | rfl | rfl
      · exact hshared _
      · exact hshared _
      · exact hshared _
      · exact hshared _
      · exact hown _
      · exact hown _
      · exact hown _
    split at hstep
    · cases hstep
      exact hserve.moves ht howns.symm nofun
    · cases hstep
      exact hserve

/-- It gives back what it has. -/
theorem leaving_inv {value : Option Nat} {rest : List Own} {failed : Bool} (h : s.Inv)
    (hstep : s.threadStep su i value = some s') (hpc : s.threads i = .leaving rest failed) :
    s'.Inv := by
  have ht : (s.threads i).Alive := by rw [hpc]; exact ⟨nofun, nofun⟩
  have howns : (s.threads i).owns = rest := by rw [hpc]; rfl
  unfold threadStep at hstep
  rw [hpc] at hstep
  cases rest with
  | cons x rest =>
      cases hstep
      exact h.drops ht howns rfl
  | nil =>
      cases failed with
      | true =>
          cases hstep
          exact h.fails ht howns
      | false =>
          cases hstep
          exact h.moves ht howns.symm nofun

/-- Every step of a worker thread keeps the invariant. -/
theorem threadStep_inv {value : Option Nat} (h : s.Inv) (hstep : s.threadStep su i value = some s') :
    s'.Inv := by
  cases hpc : s.threads i with
  | start => exact entered_inv h hstep hpc
  | stack wake => exact stack_inv h hstep hpc
  | events wake => exact events_inv h hstep hpc
  | epoll wake => exact epoll_inv h hstep hpc
  | watch wake => exact watch_inv h hstep hpc
  | top wake => exact top_inv h hstep hpc
  | leaving rest failed => exact leaving_inv h hstep hpc
  | absent | exited =>
      unfold threadStep at hstep
      rw [hpc] at hstep
      cases hstep

/-- The logger takes nothing and leaves on its own. -/
theorem loggerStep_inv {empty : Bool} (h : s.Inv) (hstep : s.loggerStep empty = some s') : s'.Inv := by
  unfold loggerStep at hstep
  cases hpc : s.logger with
  | running =>
      rw [hpc] at hstep
      simp only at hstep
      split at hstep
      · cases hstep
        exact ⟨h.books, h.main, h.threads, h.router, h.logger.thread, nofun⟩
      · cases hstep
        exact h
  | absent | exited =>
      rw [hpc] at hstep
      cases hstep

end Thread

/-! ## Runs -/

/-- Whoever takes it, a step keeps the invariant. -/
theorem step_inv {su : Setup} {s s' : Process} {a : ProcessAction} (h : s.Inv)
    (hstep : s.step su a = some s') : s'.Inv := by
  cases a with
  | main r => exact mainStep_inv h hstep
  | thread i value => exact threadStep_inv h hstep
  | logger empty => exact loggerStep_inv h hstep

/-- The invariant holds in every run, whatever the system calls return. -/
theorem reachable_inv (su : Setup) (as : List ProcessAction) :
    ∀ s ∈ runStates (Process.step su) start as, s.Inv := by
  have hall : AllSteps (Process.step su) (fun _ _ => True) start as := .of_forall (fun _ _ => trivial) as _
  exact hall.invariant (fun _ _ _ hi _ hstep => step_inv hi hstep) start_inv

/-- What is left when `main` has returned. -/
structure CleanedUp (s : Process) : Prop where
  threads : ∀ i, s.threads i = .absent ∨ s.threads i = .exited
  logger : s.logger ≠ .running
  given : ∀ as r bs, s.log = as ++ .take r :: bs → Lifetime r bs
  table : s.router.Empty
  closed : FreshCalls s.router.calls → ∀ fd, openFds s.router.calls fd = none

/-- Whatever calls fail and in whatever order the threads move: no thread uses or gives back
what is not there, and once `main` has returned no worker runs and no logger, and all that was
mapped, opened and created has been given back, once. -/
theorem reachable_books (su : Setup) (as : List ProcessAction) :
    ∀ s ∈ runStates (Process.step su) start as, Fresh s.log →
      Safe s.log ∧ (s.main = .done → s.CleanedUp) := by
  intro s hs hfresh
  have h := reachable_inv su as s hs
  have hkept := h.books hfresh
  refine ⟨hkept.safe, fun hdone => ?_⟩
  have hmain := h.main
  have hthreads := h.threads
  have hrouter := h.router
  have hlogger := h.logger
  rw [hdone] at hmain hthreads hrouter hlogger
  have hzero : s.workersStarted = 0 := hmain.alone trivial
  have hdead : ∀ i, ¬ (s.threads i).Alive := by
    intro i halive
    have hlt := ((hthreads i).owed halive).2
    omega
  have hnone : ∀ p, s.vars p = none := by
    intro p
    by_contra hne
    cases p with
    | runtime => exact hmain.runtime.1 hne
    | logger => exact hlogger.thread.1 hne
    | shared x => exact hne (hmain.free x trivial)
    | thread i =>
        have hlt := ((hmain.threads i).1 hne).2
        omega
    | own i x =>
        have hmem := ((hthreads i).own x).1 hne
        rw [(ThreadPc.dead_owns (hdead i)).1] at hmem
        cases hmem
  have hempty := hrouter.empty trivial
  refine ⟨fun i => ?_, fun hl => hlogger.owed hl, hkept.lifetimes hfresh hnone, hempty, fun hcalls fd => ?_⟩
  · by_contra hi
    rw [not_or] at hi
    exact hdead i hi
  · have htracked := hrouter.sound.tracked hcalls
    rw [hempty.held] at htracked
    exact htracked.opens fd

/-- A small process with two static directories. -/
def directories : Setup := ⟨tinyConfig 8192 128 12, Router.twoDirectories⟩

/-- The next call of `main` gives `value`. -/
def gives (value : Option Nat) : ProcessAction :=
  .main ⟨value, some ⟨4096, none⟩, true, fun _ => some .directory, fun i => some (3 + i)⟩

/-- The second worker cannot be created while the first one starts. -/
def refusedRun : List ProcessAction :=
  [gives (some 99), gives none, gives (some 1000), gives (some 2000), gives (some 3000), gives (some 4000), gives none,
    gives none, gives (some 5), gives (some 6), gives (some 0), gives (some 100), .thread 0 none,
    gives none, .thread 0 (some 5000), .thread 0 (some 6000), gives none, .thread 0 (some 7),
    .thread 0 (some 0), .thread 0 none, .thread 0 none, .thread 0 none, .thread 0 none, .thread 0 none] ++
      List.replicate 11 (gives none) ++ [.logger false, .logger true] ++ List.replicate 2 (gives none)

theorem reachable_books_refused : ∃ s ∈ runStates (Process.step directories) start refusedRun,
    s.main = .done ∧ s.threads 0 = .exited ∧ s.logger = .exited ∧ Safe s.log ∧ s.CleanedUp := by
  obtain ⟨s, hs, hdone, hexited, hlogger, hfresh⟩ := exists_of_run
    (p := fun s : Process =>
      s.main = .done ∧ s.threads 0 = .exited ∧ s.logger = .exited ∧ Fresh s.log)
    (show (runTo (Process.step directories) start refusedRun).any _ = true by decide +kernel)
  obtain ⟨hsafe, hclean⟩ := reachable_books directories refusedRun s hs hfresh
  exact ⟨s, hs, hdone, hexited, hlogger, hsafe, hclean hdone⟩

end Process

end TinyServer.Runtime
