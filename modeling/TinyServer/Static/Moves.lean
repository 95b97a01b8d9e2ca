import TinyServer.Net.Holding
import TinyServer.Static.Serve

/-!
# Where a handler's descriptors go

A file descriptor that a handler has opened is in the table, in the retired list, with
the connection, or in a local variable; a connection that shares a descriptor of the
cache holds it. Each function of `static.c`, and `http_conn_cleanup`, makes only such
moves (`Steps`), and keeps the cache `Ok`.
-/

set_option autoImplicit false

namespace TinyServer.Static

open TinyServer.Http TinyServer.Net
open TinyServer.Net.Holding

/-! ## Places -/

/-- `own` is `hc->file_fd` where `file_owned` is set, `opened` a local variable. -/
inductive Part where
  | client
  | upstream
  | own
  | opened
  deriving DecidableEq, Repr

/-- A place of the worker where a descriptor is kept. -/
inductive Place where
  | cached (i : Fin FILE_CACHE_SLOTS)
  | retired (i : Fin FILE_CACHE_RETIRED)
  | idle (n : Nat)
  | slot (j : Nat) (part : Part)
  deriving DecidableEq

/-- What kind of descriptor is kept there. -/
def Place.kind : Place → FdKind
  | .cached _ | .retired _ | .slot _ .own | .slot _ .opened => .file
  | .slot _ .client => .client
  | .slot _ .upstream | .idle _ => .upstream

/-- A move of the slot `j` of a worker. -/
abbrev PlaceMove (j : Nat) : Holding Place → List ControlCall → Holding Place → Prop :=
  Move Place.kind UINT16_MAX j

/-- The moves of a handler of the slot `j`. -/
abbrev PlaceMoves (j : Nat) : Holding Place → List ControlCall → Holding Place → Prop :=
  Moves Place.kind UINT16_MAX j

namespace FileCache

/-- The descriptor in an entry, with its uses. -/
def entryFd : CacheSlot → Option (Nat × Nat)
  | .live e => some (e.fd, e.uses)
  | _ => none

/-- A type that fits the head of a 200 and stays on its line. -/
def GoodMime (mime : List UInt8) : Prop := mime.length ≤ 64 ∧ CR ∉ mime

/-- What the head of a 200 is made of. A regular file has no negative size. -/
structure GoodFile (mime : List UInt8) (size : Int64) : Prop where
  mime : GoodMime mime
  size : 0 ≤ size

/-- What the cache itself keeps to. -/
structure Ok (c : FileCache) : Prop where
  good : ∀ i e, c.entries i = .live e → GoodFile e.mime e.size
  busy : ∀ i r, c.retired i = some r → 0 < r.uses
  entries : c.ready = false → ∀ i, c.entries i = .empty
  retired : c.ready = false → ∀ i, c.retired i = none

end FileCache

namespace Handler

/-- The descriptors of the handler of the slot `j` and of its local variable, with those
of `d` in the places that the handler does not touch. -/
def on (h : Handler) (j : Nat) (d : Holding Place) (tmp : Option Nat) : Holding Place where
  place
    | .cached i => FileCache.entryFd (h.cache.entries i)
    | .retired i => (h.cache.retired i).map fun r => (r.fd, r.uses)
    | .idle n => d.place (.idle n)
    | .slot k .own =>
        if k = j then if h.hc.fileOwned then h.hc.fileFd.map fun fd => (fd, 0) else none
        else d.place (.slot k .own)
    | .slot k .opened =>
        if k = j then tmp.map fun fd => (fd, 0) else d.place (.slot k .opened)
    | .slot k .client => d.place (.slot k .client)
    | .slot k .upstream => d.place (.slot k .upstream)
  held k := if k = j then if h.hc.fileOwned then none else h.hc.fileFd else d.held k
  dropped := h.cache.dropped

end Handler

/-- Only descriptors of the cache are in use. -/
def Plain (d : Holding Place) : Prop :=
  (∀ k fd n, d.place (.idle k) = some (fd, n) → n = 0) ∧
    ∀ k part fd n, d.place (.slot k part) = some (fd, n) → n = 0

/-- `h'` comes from `h` by moves, with the local descriptor `tmp` before and `tmp'`
after. The client socket stays as it is, and all calls are about files. -/
def Steps (h : Handler) (tmp : Option Nat) (h' : Handler) (tmp' : Option Nat) : Prop :=
  h.cache.Ok → h'.hc.fd = h.hc.fd ∧ h'.cache.Ok ∧
    ∃ cs, h'.kernel.wire.calls = h.kernel.wire.calls ++ cs ∧
      (∀ c ∈ cs, c.files = true) ∧
      ∀ j d, Plain d → PlaceMoves j (h.on j d tmp) cs (h'.on j d tmp')

section Steps

variable {h h' h'' : Handler} {tmp tmp' tmp'' : Option Nat}

theorem Steps.trans (hs : Steps h tmp h' tmp') (hs' : Steps h' tmp' h'' tmp'') :
    Steps h tmp h'' tmp'' := by
  intro hok
  obtain ⟨hfd, hok', cs, hcalls, hfiles, hm⟩ := hs hok
  obtain ⟨hfd', hok'', cs', hcalls', hfiles', hm'⟩ := hs' hok'
  refine ⟨hfd'.trans hfd, hok'', cs ++ cs', ?_, ?_, fun j d hd => (hm j d hd).trans (hm' j d hd)⟩
  · rw [hcalls', hcalls, List.append_assoc]
  · intro c hc
    rcases List.mem_append.1 hc with hc | hc
    · exact hfiles c hc
    · exact hfiles' c hc

/-- Nothing happens to a descriptor. -/
theorem Steps.same (hfd : h'.hc.fd = h.hc.fd) (hok : h.cache.Ok → h'.cache.Ok)
    (hcalls : h'.kernel.wire.calls = h.kernel.wire.calls)
    (hon : ∀ j d, h'.on j d tmp' = h.on j d tmp) : Steps h tmp h' tmp' := by
  intro hcache
  refine ⟨hfd, hok hcache, [], by rw [hcalls, List.append_nil], nofun, fun j d _ => ?_⟩
  rw [hon]
  exact .refl _

theorem Steps.refl (h : Handler) (tmp : Option Nat) : Steps h tmp h tmp :=
  .same rfl id rfl fun _ _ => rfl

/-- One move. -/
theorem Steps.one (cs : List ControlCall) (hfd : h'.hc.fd = h.hc.fd)
    (hok : h.cache.Ok → h'.cache.Ok) (hcalls : h'.kernel.wire.calls = h.kernel.wire.calls ++ cs)
    (hm : ∀ j d, Plain d → PlaceMove j (h.on j d tmp) cs (h'.on j d tmp'))
    (hfiles : cs.all (·.files) = true := by rfl) : Steps h tmp h' tmp' := by
  intro hcache
  exact ⟨hfd, hok hcache, cs, hcalls, List.all_eq_true.1 hfiles, fun j d hd => (hm j d hd).moves⟩

/-- A quiet call. -/
theorem Steps.quiet {c : ControlCall} (hc : c.Quiet) (hfd : h'.hc.fd = h.hc.fd)
    (hok : h.cache.Ok → h'.cache.Ok)
    (hcalls : h'.kernel.wire.calls = h.kernel.wire.calls ++ [c])
    (hon : ∀ j d, h'.on j d tmp = h.on j d tmp) (hfiles : c.files = true := by rfl) :
    Steps h tmp h' tmp := by
  refine .one [c] hfd hok hcalls (fun j d _ => ?_) ?_
  · rw [hon]
    exact .quiet _ c hc
  · rw [List.all_cons, hfiles]
    rfl

end Steps

/-! ## What a change of the handler changes -/

section On

variable {h h' : Handler} (j : Nat) (d : Holding Place) (tmp : Option Nat)

/-- Two handlers agree on what `on` looks at. -/
theorem on_congr (hentries : h'.cache.entries = h.cache.entries)
    (hretired : h'.cache.retired = h.cache.retired) (hdropped : h'.cache.dropped = h.cache.dropped)
    (hfd : h'.hc.fileFd = h.hc.fileFd) (howned : h'.hc.fileOwned = h.hc.fileOwned) :
    h'.on j d tmp = h.on j d tmp := by
  unfold Handler.on
  rw [hentries, hretired, hdropped, hfd, howned]

/-- Where a connection has no file, `file_owned` does not matter. -/
theorem on_noFile (hcache : h'.cache = h.cache) (hfd : h.hc.fileFd = none)
    (hfd' : h'.hc.fileFd = none) : h'.on j d tmp = h.on j d tmp := by
  unfold Handler.on
  rw [hcache, hfd, hfd']
  simp only [Option.map_none, ite_self]

variable (h)

theorem on_place_opened :
    (h.on j d tmp).place (.slot j .opened) = tmp.map fun fd => (fd, 0) := if_pos rfl

theorem on_place_own : (h.on j d tmp).place (.slot j .own) =
    if h.hc.fileOwned then h.hc.fileFd.map fun fd => (fd, 0) else none := if_pos rfl

theorem on_held_self :
    (h.on j d tmp).held j = if h.hc.fileOwned then none else h.hc.fileFd := if_pos rfl

theorem on_setEntry (i : Fin FILE_CACHE_SLOTS) (s : CacheSlot) :
    { h with cache := h.cache.setEntry i s }.on j d tmp =
      (h.on j d tmp).put (.cached i) (FileCache.entryFd s) := by
  refine eq_of (fun p => ?_) (fun _ => rfl) rfl
  cases p with
  | cached k =>
      show FileCache.entryFd (Function.update h.cache.entries i s k) = _
      by_cases hk : k = i
      · rw [hk, Function.update_self]
        exact (put_place_self _ _ _).symm
      · rw [Function.update_of_ne hk]
        exact Eq.symm (put_place_ne _ _ fun he => hk (Place.cached.inj he))
  | retired k => exact Eq.symm (put_place_ne _ _ nofun)
  | idle n => exact Eq.symm (put_place_ne _ _ nofun)
  | slot k part =>
      rw [put_place_ne _ _ (show Place.slot k part ≠ .cached i from nofun)]
      cases part <;> rfl

theorem on_setRetired (i : Fin FILE_CACHE_RETIRED) (r : Option RetiredFd) :
    { h with cache := h.cache.setRetired i r }.on j d tmp =
      (h.on j d tmp).put (.retired i) (r.map fun r => (r.fd, r.uses)) := by
  refine eq_of (fun p => ?_) (fun _ => rfl) rfl
  cases p with
  | retired k =>
      show (Function.update h.cache.retired i r k).map _ = _
      by_cases hk : k = i
      · rw [hk, Function.update_self]
        exact (put_place_self _ _ _).symm
      · rw [Function.update_of_ne hk]
        exact Eq.symm (put_place_ne _ _ fun he => hk (Place.retired.inj he))
  | cached k => exact Eq.symm (put_place_ne _ _ nofun)
  | idle n => exact Eq.symm (put_place_ne _ _ nofun)
  | slot k part =>
      rw [put_place_ne _ _ (show Place.slot k part ≠ .retired i from nofun)]
      cases part <;> rfl

/-- The local variable changes. -/
theorem on_opened (tmp' : Option Nat) :
    h.on j d tmp' = (h.on j d tmp).put (.slot j .opened) (tmp'.map fun fd => (fd, 0)) := by
  refine eq_of (fun p => ?_) (fun _ => rfl) rfl
  cases p with
  | slot k part =>
      by_cases he : Place.slot k part = .slot j .opened
      · cases he
        exact (if_pos rfl).trans (put_place_self _ _ _).symm
      · refine Eq.trans ?_ (put_place_ne _ _ he).symm
        cases part with
        | opened =>
            have hk : k ≠ j := by
              rintro rfl
              exact he rfl
            exact (if_neg hk).trans (if_neg hk).symm
        | client => rfl
        | upstream => rfl
        | own => rfl
  | cached k => exact Eq.symm (put_place_ne _ _ nofun)
  | retired k => exact Eq.symm (put_place_ne _ _ nofun)
  | idle n => exact Eq.symm (put_place_ne _ _ nofun)

/-- A connection that holds nothing gets a file of its own, or loses it. -/
theorem on_own (hc : HttpConn) (hown : h.hc.fileFd = none ∨ h.hc.fileOwned = true)
    (howned : hc.fileFd = none ∨ hc.fileOwned = true) :
    { h with hc := hc }.on j d tmp =
      (h.on j d tmp).put (.slot j .own) (hc.fileFd.map fun fd => (fd, 0)) := by
  have howner : ∀ c : HttpConn, c.fileFd = none ∨ c.fileOwned = true →
      (if c.fileOwned then c.fileFd.map fun fd => (fd, 0) else none) =
          c.fileFd.map (fun fd => (fd, 0)) ∧
        (if c.fileOwned then none else c.fileFd) = none := by
    rintro c (hfd | hmine)
    · rw [hfd]
      exact ⟨ite_self _, ite_self _⟩
    · rw [hmine]
      exact ⟨rfl, rfl⟩
  refine eq_of (fun p => ?_) (fun k => ?_) rfl
  · cases p with
    | slot k part =>
        by_cases he : Place.slot k part = .slot j .own
        · cases he
          refine Eq.trans ?_ (put_place_self _ _ _).symm
          exact (if_pos rfl).trans (howner hc howned).1
        · refine Eq.trans ?_ (put_place_ne _ _ he).symm
          cases part with
          | own =>
              have hk : k ≠ j := by
                rintro rfl
                exact he rfl
              exact (if_neg hk).trans (if_neg hk).symm
          | client => rfl
          | upstream => rfl
          | opened => rfl
    | cached k => exact Eq.symm (put_place_ne _ _ nofun)
    | retired k => exact Eq.symm (put_place_ne _ _ nofun)
    | idle n => exact Eq.symm (put_place_ne _ _ nofun)
  · show (if k = j then if hc.fileOwned then none else hc.fileFd else d.held k) =
      if k = j then if h.hc.fileOwned then none else h.hc.fileFd else d.held k
    rw [(howner hc howned).2, (howner h.hc hown).2]

/-- A connection that has no file of its own holds one, or gives it back. -/
theorem on_held (hc : HttpConn) (hown : h.hc.fileFd = none ∨ h.hc.fileOwned = false)
    (howned : hc.fileFd = none ∨ hc.fileOwned = false) :
    { h with hc := hc }.on j d tmp = (h.on j d tmp).setHeld j hc.fileFd := by
  have hnone : ∀ c : HttpConn, c.fileFd = none ∨ c.fileOwned = false →
      (if c.fileOwned then c.fileFd.map fun fd => (fd, 0) else none) = (none : Option (Nat × Nat)) ∧
        (if c.fileOwned then none else c.fileFd) = c.fileFd := by
    rintro c (hfd | hshared)
    · rw [hfd]
      exact ⟨ite_self _, ite_self _⟩
    · rw [hshared]
      exact ⟨rfl, rfl⟩
  refine eq_of (fun p => ?_) (fun k => ?_) rfl
  · cases p with
    | slot k part =>
        cases part with
        | own =>
            show (if k = j then if hc.fileOwned then _ else _ else _) =
              if k = j then if h.hc.fileOwned then _ else _ else _
            rw [(hnone hc howned).1, (hnone h.hc hown).1]
        | client => rfl
        | upstream => rfl
        | opened => rfl
    | cached k => rfl
    | retired k => rfl
    | idle n => rfl
  · show (if k = j then if hc.fileOwned then none else hc.fileFd else d.held k) =
      Function.update (h.on j d tmp).held j hc.fileFd k
    rw [(hnone hc howned).2]
    by_cases hk : k = j
    · rw [if_pos hk, hk, Function.update_self]
    · rw [if_neg hk, Function.update_of_ne hk]
      exact (if_neg hk).symm

end On

/-! ## The cache stays as it should be -/

namespace FileCache

variable {c : FileCache}

theorem Ok.ready (h : c.Ok) {i : Fin FILE_CACHE_SLOTS} {e : CachedFile}
    (hi : c.entries i = .live e) : c.ready = true := by
  cases hready : c.ready with
  | true => rfl
  | false =>
      rw [h.entries hready i] at hi
      cases hi

theorem Ok.setEntry (h : c.Ok) (hready : c.ready = true) (i : Fin FILE_CACHE_SLOTS) {s : CacheSlot}
    (hs : ∀ e, s = .live e → GoodFile e.mime e.size) : (c.setEntry i s).Ok := by
  have hon : (c.setEntry i s).ready ≠ false := by
    rw [show (c.setEntry i s).ready = true from hready]
    exact nofun
  refine ⟨fun k e hk => ?_, h.busy, fun hoff => absurd hoff hon, fun hoff => absurd hoff hon⟩
  by_cases hki : k = i
  · rw [hki] at hk
    exact hs e ((Function.update_self ..).symm.trans hk)
  · exact h.good k e ((Function.update_of_ne hki _ _).symm.trans hk)

theorem Ok.setRetired (h : c.Ok) (hready : c.ready = true) (i : Fin FILE_CACHE_RETIRED)
    {r : Option RetiredFd} (hr : ∀ x, r = some x → 0 < x.uses) : (c.setRetired i r).Ok := by
  have hon : (c.setRetired i r).ready ≠ false := by
    rw [show (c.setRetired i r).ready = true from hready]
    exact nofun
  refine ⟨h.good, fun k x hk => ?_, fun hoff => absurd hoff hon, fun hoff => absurd hoff hon⟩
  by_cases hki : k = i
  · rw [hki] at hk
    have hself : (c.setRetired i r).retired i = r := Function.update_self ..
    exact hr x (hself.symm.trans hk)
  · exact h.busy k x ((Function.update_of_ne hki _ _).symm.trans hk)

/-- A cache that is not initialized is empty. -/
theorem Ok.init_eq (h : c.Ok) : c.init = { c with ready := true } := by
  unfold init
  cases hready : c.ready with
  | true =>
      rw [if_pos rfl]
      cases c
      cases hready
      rfl
  | false =>
      rw [if_neg Bool.false_ne_true]
      have hentries : c.entries = fun _ => .empty := funext (h.entries hready)
      have hretired : c.retired = fun _ => none := funext (h.retired hready)
      rw [hentries, hretired]

theorem Ok.init (h : c.Ok) : c.init.Ok := by
  rw [h.init_eq]
  exact ⟨h.good, h.busy, nofun, nofun⟩

theorem init_ready (c : FileCache) : c.init.ready = true := by
  unfold FileCache.init
  cases hready : c.ready with
  | true => exact hready
  | false => rfl

theorem Ok.fresh : FileCache.fresh.Ok := ⟨nofun, nofun, fun _ _ => rfl, fun _ _ => rfl⟩

end FileCache

/-! ## Descriptors that leave the table -/

/-- The bytes on a wire. -/
def traffic (w : Wire) : List UInt8 × List UInt8 × List UpstreamConn :=
  (w.clientIn, w.clientOut, w.conns)

/-- `h'` differs from `h` neither in the connection and the arena nor in the bytes on the
wire. -/
structure Aside (h h' : Handler) : Prop where
  hc : h'.hc = h.hc
  arena : h'.arena = h.arena
  traffic : traffic h'.kernel.wire = traffic h.kernel.wire

theorem Aside.refl (h : Handler) : Aside h h := ⟨rfl, rfl, rfl⟩

theorem Aside.trans {h h' h'' : Handler} (a : Aside h h') (b : Aside h' h'') : Aside h h'' :=
  ⟨b.hc.trans a.hc, b.arena.trans a.arena, b.traffic.trans a.traffic⟩

namespace Handler

section Calls

variable (h : Handler)

theorem cork_quiet (fd : Nat) (on ok : Bool) : (ControlCall.cork fd on ok).Quiet := ⟨rfl, nofun⟩

/-- `cork` touches no file descriptor. -/
theorem cork_steps (on : Bool) (tmp : Option Nat) : Steps h tmp (h.cork on) tmp := by
  unfold cork
  cases hfd : h.hc.fd with
  | none => exact .same rfl id rfl fun _ _ => rfl
  | some fd => exact .quiet (cork_quiet fd on _) rfl id rfl fun _ _ => rfl

/-- The local descriptor is closed. -/
theorem close_steps (fd : Nat) : Steps h (some fd) (h.close fd) none := by
  refine .one [.close fd] rfl id rfl fun j d _ => ?_
  have hm : PlaceMove j (h.on j d (some fd)) _ _ :=
    .close _ (.slot j .opened) fd (on_place_opened h j d _)
  have heq : (h.close fd).on j d none = (h.on j d (some fd)).put (.slot j .opened) none :=
    on_opened h j d (some fd) none
  rw [heq]
  exact hm

theorem openFile_steps (path : List UInt8) :
    Steps h none (h.openFile path).2 (h.openFile path).1.fd := by
  unfold openFile
  simp only
  cases hfd : (h.disk.opens.headD .notFound).fd with
  | none => exact .quiet (c := .openFile path none) ⟨rfl, nofun⟩ rfl id rfl fun _ _ => rfl
  | some fd =>
      refine .one [.openFile path (some fd)] rfl id rfl fun j d _ => ?_
      have hm : PlaceMove j (h.on j d none) _ _ :=
        .bring _ (.openFile path (some fd)) (.slot j .opened) fd ⟨rfl, fun _ => rfl⟩
          (on_place_opened h j d _)
      have heq := on_opened h j d none (some fd)
      rw [Option.map_some] at heq
      rw [← heq] at hm
      exact hm

theorem openFile_aside (path : List UInt8) : Aside h (h.openFile path).2 := ⟨rfl, rfl, rfl⟩

theorem openLoop_steps (path : List UInt8) (n : Nat) : ∀ h : Handler,
    Steps h none (openLoop path n h).2 (openLoop path n h).1.fd := by
  induction n with
  | zero => exact fun h => .refl h none
  | succ n ih =>
      intro h
      have hopen := h.openFile_steps path
      rw [openLoop]
      split
      · rename_i hagain
        rw [hagain] at hopen
        exact hopen.trans (ih _)
      · exact hopen

theorem openLoop_aside (path : List UInt8) (n : Nat) : ∀ h : Handler,
    Aside h (openLoop path n h).2 := by
  induction n with
  | zero => exact fun h => .refl h
  | succ n ih =>
      intro h
      rw [openLoop]
      split
      · exact (h.openFile_aside path).trans (ih _)
      · exact h.openFile_aside path

theorem openLoop_cache (path : List UInt8) (n : Nat) : ∀ h : Handler,
    (openLoop path n h).2.cache = h.cache := by
  induction n with
  | zero => exact fun h => rfl
  | succ n ih =>
      intro h
      rw [openLoop]
      split
      · exact (ih _).trans rfl
      · rfl

theorem openUnder_steps (path : List UInt8) :
    Steps h none (h.openUnder path).2 (h.openUnder path).1.fd := openLoop_steps path _ h

theorem openUnder_aside (path : List UInt8) : Aside h (h.openUnder path).2 :=
  openLoop_aside path _ h

theorem fstat_steps (tmp : Option Nat) : Steps h tmp h.fstat.2 tmp := .same rfl id rfl fun _ _ => rfl

theorem fstatat_steps (tmp : Option Nat) : Steps h tmp h.fstatat.2 tmp :=
  .same rfl id rfl fun _ _ => rfl

theorem freeRetired_free {c : FileCache} {i : Fin FILE_CACHE_RETIRED}
    (h : freeRetired c = some i) : c.retired i = none := by
  have := List.find?_some h
  exact Option.isNone_iff_eq_none.1 this

theorem retireFd_aside (fd uses : Nat) : Aside h (h.retireFd fd uses) := by
  unfold retireFd
  split
  · exact ⟨rfl, rfl, rfl⟩
  · split
    · exact ⟨rfl, rfl, rfl⟩
    · exact ⟨rfl, rfl, rfl⟩

theorem tombstone_aside (i : Fin FILE_CACHE_SLOTS) (e : CachedFile) :
    Aside h (h.tombstone i e) := by
  have hretire := retireFd_aside { h with cache := h.cache.setEntry i .tombstone } e.fd e.uses
  exact ⟨hretire.hc, hretire.arena, hretire.traffic⟩

variable {h}

/-- An entry is dropped: its descriptor is closed, retired or lost. -/
theorem tombstone_steps {i : Fin FILE_CACHE_SLOTS} {e : CachedFile} (tmp : Option Nat)
    (hi : h.cache.entries i = .live e) : Steps h tmp (h.tombstone i e) tmp := by
  have hok : h.cache.Ok → (h.cache.setEntry i .tombstone).Ok := fun hok =>
    hok.setEntry (hok.ready hi) i nofun
  have hplace : ∀ j d, (h.on j d tmp).place (.cached i) = some (e.fd, e.uses) := by
    intro j d
    show FileCache.entryFd (h.cache.entries i) = _
    rw [hi]
    rfl
  have hentry := fun j d => on_setEntry h j d tmp i .tombstone
  unfold tombstone retireFd
  by_cases huses : e.uses = 0
  · rw [if_pos huses]
    refine .one [.close e.fd] rfl hok rfl fun j d _ => ?_
    have hm : PlaceMove j (h.on j d tmp) _ _ :=
      .close _ (.cached i) e.fd (by rw [hplace, huses])
    have heq : ({ h with cache := h.cache.setEntry i .tombstone }.close e.fd).on j d tmp =
        (h.on j d tmp).put (.cached i) none := hentry j d
    rw [heq]
    exact hm
  rw [if_neg huses]
  cases hfree : freeRetired { h with cache := h.cache.setEntry i .tombstone }.cache with
  | none =>
      refine .one [] rfl (fun hcache => ?_) (List.append_nil _).symm fun j d _ => ?_
      · have := hok hcache
        exact ⟨this.good, this.busy, this.entries, this.retired⟩
      · have hm : PlaceMove j (h.on j d tmp) _ _ :=
          .lose _ (.cached i) e.fd e.uses (hplace j d) rfl
        have heq := hentry j d
        rw [show FileCache.entryFd .tombstone = none from rfl] at heq
        rw [← heq] at hm
        exact hm
  | some r =>
      have hrfree := freeRetired_free hfree
      refine .one [] rfl (fun hcache => ?_) (List.append_nil _).symm fun j d _ => ?_
      · refine (hok hcache).setRetired (hcache.ready hi) r fun x hx => ?_
        rw [← Option.some.inj hx]
        show 0 < e.uses
        omega
      · have hempty : (h.on j d tmp).place (.retired r) = none := by
          show Option.map _ (h.cache.retired r) = none
          rw [show h.cache.retired r = none from hrfree]
          rfl
        have hm : PlaceMove j (h.on j d tmp) _ _ := .move _ (.cached i) (.retired r) hempty rfl
        have heq := on_setRetired { h with cache := h.cache.setEntry i .tombstone } j d tmp r
          (some ⟨e.fd, e.uses⟩)
        rw [hentry j d] at heq
        rw [hplace j d] at hm
        refine Eq.subst ?_ hm
        refine Eq.trans ?_ heq.symm
        exact put_comm _ _ _ (nofun)

end Calls

end Handler

end TinyServer.Static
