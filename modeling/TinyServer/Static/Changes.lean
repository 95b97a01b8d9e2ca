import TinyServer.Lib.Run
import TinyServer.Static.Script
import TinyServer.Static.Sent

/-!
# The open-file cache in a changing file system

Between any two calls of the cache the file system may become any other. `file_cache_store`
records with a descriptor what `fstat` reports on it; `file_cache_recheck` records what
`fstatat` reported on the path before it was opened, so that a file put in its place in
between is served under the size of the old one, and a directory as a file
(`swapped_directory`). While the path still names, when it is opened, what `fstatat` has
reported, every recorded size, modification time and inode are the descriptor's own
(`installs_own`).
-/

set_option autoImplicit false

namespace TinyServer.Static

open TinyServer.Http TinyServer.Net TinyServer.Lib

/-! ## The file system -/

/-- Files are their inode numbers. Where a path leads is a matter of the call: `fstatat` may
stop at a symbolic link that `open_under` refuses, or follow one out of the root. -/
structure FileSystem where
  named : List UInt8 → Option Nat
  linked : List UInt8 → Option Nat
  file : Nat → Stat

/-- What `fstat` says of the file `ino`. -/
def FileSystem.stat (fs : FileSystem) (ino : Nat) : Stat := { fs.file ino with ino := ino }

/-- An open descriptor with its file. `seen` has what the file was like at each moment since it
was opened, the last one first; no step reads it. -/
structure Opening where
  fd : Nat
  ino : Nat
  seen : List Stat

/-- An open descriptor sees what becomes of its file. -/
def Opening.watch (fs : FileSystem) (o : Opening) : Opening := { o with seen := fs.stat o.ino :: o.seen }

/-- An entry as it was put into the table, with the opening of its descriptor. -/
structure Install where
  entry : CachedFile
  opening : Option Opening

/-- So does what was installed for it. -/
def Install.watch (fs : FileSystem) (x : Install) : Install :=
  { x with opening := x.opening.map (Opening.watch fs) }

/-- The worker is somewhere in a call of `static_serve`, or between two requests. -/
structure Worker where
  fs : FileSystem
  openings : List Opening
  program : ServeScript Handler
  installs : List Install

/-- `change` may happen at any time. `serve` begins a call, and `rest` is whatever the worker does
between two of them. The others are the next call of the script, with what is left open
about its result. -/
inductive WorkerAction where
  | change (fs : FileSystem)
  | serve (useCache : Bool) (decoded rel redir : List UInt8) (now : Nat)
  | rest (f : Handler → Handler)
  | stat (fails : Bool)
  | openat (r : OpenResult)
  | install

namespace Worker

/-- The last opening of the descriptor. -/
def holder (s : Worker) (fd : Nat) : Option Opening := s.openings.find? fun o => o.fd == fd

/-- An `openat2` that has the result `r`. -/
def openStep (s : Worker) (path : List UInt8) (r : OpenResult) (program : ServeScript Handler) :
    Option Worker :=
  match r with
  | .opened fd =>
      (s.fs.named path).map fun ino =>
        { s with openings := ⟨fd, ino, [s.fs.stat ino]⟩ :: s.openings, program := program }
  | _ => some { s with program := program }

/-- A step of the file system or of the worker. -/
def step (s : Worker) : WorkerAction → Option Worker
  | .change fs => some { s with
      fs := fs
      openings := s.openings.map (Opening.watch fs)
      installs := s.installs.map (Install.watch fs) }
  | .serve useCache decoded rel redir now =>
      match s.program with
      | .done h => some { s with program := h.servePathScript useCache decoded rel redir now }
      | .call _ _ => none
  | .rest f =>
      match s.program with
      | .done h => some { s with program := .done (f h) }
      | .call _ _ => none
  | .stat fails =>
      match s.program with
      | .call (.fstatat h path) next =>
          let r := if fails then none else (s.fs.linked path).map s.fs.stat
          some { s with program := next (h.givenFstatat r) }
      | .call (.fstat h fd) next =>
          let r := if fails then none else (s.holder fd).map fun o => s.fs.stat o.ino
          some { s with program := next (h.givenFstat r) }
      | _ => none
  | .openat r =>
      match s.program with
      | .call (.openat h path _) next => s.openStep path r (next (h.givenOpen path r))
      | _ => none
  | .install =>
      match s.program with
      | .call (.install h i e) next =>
          some { s with
            program := next (CacheCall.answer (.install h i e))
            installs := ⟨e, s.holder e.fd⟩ :: s.installs }
      | _ => none

/-- A worker before its first request. -/
def start (fs : FileSystem) (h : Handler) : Worker := ⟨fs, [], .done h, []⟩

end Worker

/-! ## The property and the condition -/

/-- The entry has the size, the modification time and the inode of a regular file. -/
def Recorded (e : CachedFile) (st : Stat) : Prop := st.kind = .regular ∧ sameMeta e st = true

/-- Every installed descriptor's own file was once, since it was opened, what is recorded. -/
def Worker.Own (s : Worker) : Prop :=
  ∀ x ∈ s.installs, ∃ o, x.opening = some o ∧ ∃ st ∈ o.seen, Recorded x.entry st

/-- The path that is opened next, with what it was checked to be. -/
def checkedOpen : ServeScript Handler → Option (List UInt8 × Stat)
  | .call (.openat _ path checked) _ => checked.map fun st => (path, st)
  | _ => none

/-- A path that was checked names, when it is opened, what it was checked to be. -/
def Worker.Unchanged (s : Worker) : WorkerAction → Prop
  | .openat (.opened _) =>
      ∀ c ∈ checkedOpen s.program, ∀ ino ∈ s.fs.named c.1, s.fs.stat ino = c.2
  | _ => True

instance (s : Worker) : DecidablePred s.Unchanged
  | .openat (.opened _) =>
      inferInstanceAs (Decidable (∀ c ∈ checkedOpen s.program, ∀ ino ∈ s.fs.named c.1, s.fs.stat ino = c.2))
  | .openat .again | .openat .notFound | .openat .forbidden | .openat .failed => isTrue trivial
  | .change _ | .serve .. | .rest _ | .stat _ | .install => isTrue trivial

/-! ## What the scripts record -/

/-- What is known after an `openat2`: a checked path, by its check. -/
def knownOpen (checked : Option Stat) (r : OpenResult × Handler) : Option (Nat × Stat) :=
  match r.1 with
  | .opened fd => checked.map fun st => (fd, st)
  | _ => none

theorem knownOpen_opened (checked : Option Stat) {r : OpenResult × Handler} {fd : Nat}
    (h : r.1 = .opened fd) : knownOpen checked r = checked.map fun st => (fd, st) := by
  obtain ⟨r, k⟩ := r
  obtain rfl := h
  rfl

/-- What is known after an `fstat`. -/
def knownStat (fd : Nat) (r : Option Stat × Handler) : Option (Nat × Stat) :=
  r.1.map fun st => (fd, st)

/-- A descriptor is installed with what was learnt about it by the call before: the metadata of
its file, or those its path was checked to have. -/
def installProtocol : Script.Protocol CacheCall CacheCall.Answer (Option (Nat × Stat)) where
  ok known q :=
    match q with
    | .install _ _ e => ∃ st, known = some (e.fd, st) ∧ Recorded e st
    | _ => True
  after _ q r :=
    match q, r with
    | .openat _ _ checked, r => knownOpen checked r
    | .fstat _ fd, r => knownStat fd r
    | .fstatat _ _, _ => none
    | .install _ _ _, _ => none

section Keeps

open Handler

variable {known : Option (Nat × Stat)}

theorem sameMeta_of_eq {e : CachedFile} {st : Stat} (hsize : e.size = st.size)
    (hsec : e.mtimeSec = st.mtimeSec) (hnsec : e.mtimeNsec = st.mtimeNsec) (hino : e.ino = st.ino) :
    sameMeta e st = true := by
  rw [sameMeta, hsize, hsec, hnsec, hino]
  simp only [BEq.rfl, Bool.and_self]

theorem openLoopScript_keeps (path : List UInt8) (checked : Option Stat) (n : Nat) :
    ∀ (h : Handler) (known : Option (Nat × Stat)),
      (openLoopScript path checked n h).Keeps installProtocol
        (fun known r => ∀ fd, r.1 = .opened fd → known = checked.map fun st => (fd, st)) known := by
  induction n with
  | zero =>
      intro h known fd hfd
      cases hfd
  | succ n ih =>
      intro h known
      refine ⟨trivial, ?_⟩
      intro r
      dsimp only
      split
      case isTrue => exact ih _ _
      case isFalse => exact fun fd hfd => knownOpen_opened checked hfd

theorem fileCacheRecheckScript_keeps (h : Handler) (i : Fin FILE_CACHE_SLOTS) (e : CachedFile) (now : Nat) :
    (h.fileCacheRecheckScript i e now).Keeps installProtocol (fun _ _ => True) known := by
  rw [fileCacheRecheckScript]
  split
  case isTrue => trivial
  case isFalse =>
    refine ⟨trivial, ?_⟩
    rintro ⟨r, k⟩
    cases r with
    | none => trivial
    | some st =>
        dsimp only
        split
        case isTrue => trivial
        case isFalse hregular =>
          split
          case isTrue => trivial
          case isFalse =>
            apply (openLoopScript_keeps e.path (some st) _ k _).bind
            rintro known ⟨r, k⟩ hknown
            cases r with
            | opened fd =>
                refine ⟨⟨st, hknown fd rfl, ?_, ?_⟩, fun _ => trivial⟩
                · exact not_not.1 (not_or.1 hregular).1
                · exact sameMeta_of_eq rfl rfl rfl rfl
            | again | notFound | forbidden | failed => trivial

/-- A store, of what `fstat` has reported on a regular file. -/
theorem fileCacheStoreScript_keeps (h : Handler) (path : List UInt8) (fd : Nat) {st : Stat}
    (hregular : st.kind = .regular) (mime : List UInt8) (now : Nat) :
    (h.fileCacheStoreScript path fd st mime now).Keeps installProtocol (fun _ _ => True) (some (fd, st)) := by
  rw [fileCacheStoreScript]
  dsimp only
  split
  case isTrue => trivial
  case isFalse =>
    cases storeLoop h.cache.init FILE_CACHE_SLOTS (probeStart (pathHash path)) none with
    | none => trivial
    | some i =>
        refine ⟨⟨st, rfl, hregular, ?_⟩, fun _ => trivial⟩
        exact sameMeta_of_eq rfl rfl rfl rfl

theorem serveCachedScript_keeps (h : Handler) (rel : List UInt8) (now : Nat) :
    (h.serveCachedScript rel now).Keeps installProtocol (fun _ _ => True) known := by
  rw [serveCachedScript]
  dsimp only
  cases (fileCacheFind h.cache rel).2 with
  | none => trivial
  | some f =>
      apply (fileCacheRecheckScript_keeps _ f.1 f.2 now).bind
      rintro known ⟨r, k⟩ -
      cases r with
      | none => trivial
      | some e => trivial

theorem statOpenedScript_keeps (o : OpenResult × Handler) (now : Nat) :
    (statOpenedScript o now).Keeps installProtocol
      (fun known r => ∀ fd st k, r = .ok (fd, st, k) → known = some (fd, st)) known := by
  obtain ⟨r, h⟩ := o
  cases r with
  | opened fd =>
      refine ⟨trivial, ?_⟩
      rintro ⟨r, k⟩
      cases r with
      | none => exact fun _ _ _ => nofun
      | some st =>
          rintro fd' st' k' ⟨⟩
          rfl
  | again | notFound | forbidden | failed => exact fun _ _ _ => nofun

theorem fetchScript_keeps (h : Handler) (useCache : Bool) (rel : List UInt8) (now : Nat) :
    (h.fetchScript useCache rel now).Keeps installProtocol
      (fun known r => ∀ fd st k, r = .ok (fd, st, k) → known = some (fd, st)) known := by
  have htable : (if useCache then h.serveCachedScript rel now else .done (false, h)).Keeps installProtocol
      (fun _ _ => True) known := by
    split
    · exact serveCachedScript_keeps h rel now
    · trivial
  apply htable.bind
  rintro known ⟨hit, k⟩ -
  cases hit with
  | true => exact fun _ _ _ => nofun
  | false =>
      apply (openLoopScript_keeps rel none _ k known).bind
      intro known o _
      exact statOpenedScript_keeps o now

theorem serveOpenedScript_keeps (h : Handler) (useCache : Bool) (rel : List UInt8) (fd : Nat) (st : Stat)
    (now : Nat) :
    (h.serveOpenedScript useCache rel fd st now).Keeps installProtocol (fun _ _ => True) (some (fd, st)) := by
  rw [serveOpenedScript]
  split
  case isTrue => trivial
  case isFalse hregular =>
    dsimp only
    split
    case isTrue =>
      apply (fileCacheStoreScript_keeps h rel fd (not_not.1 (not_or.1 hregular).1) _ now).bind
      rintro known ⟨c, i⟩ -
      cases i with
      | none => trivial
      | some i => trivial
    case isFalse => trivial

theorem serveIndexScript_keeps (h : Handler) (useCache : Bool) (decoded rel redir : List UInt8) (now : Nat) :
    (h.serveIndexScript useCache decoded rel redir now).Keeps installProtocol (fun _ _ => True) known := by
  rw [serveIndexScript]
  split
  case isTrue => trivial
  case isFalse =>
    split
    case isTrue => trivial
    case isFalse =>
      apply (fetchScript_keeps h useCache _ now).bind
      intro known r hknown
      cases r with
      | error k => trivial
      | ok r =>
          obtain ⟨fd, st, k⟩ := r
          rw [hknown fd st k rfl]
          exact serveOpenedScript_keeps k useCache _ fd st now

theorem servePathScript_keeps (h : Handler) (useCache : Bool) (decoded rel redir : List UInt8) (now : Nat) :
    (h.servePathScript useCache decoded rel redir now).Keeps installProtocol (fun _ _ => True) known := by
  apply (fetchScript_keeps h useCache rel now).bind
  intro known r hknown
  cases r with
  | error k => trivial
  | ok r =>
      obtain ⟨fd, st, k⟩ := r
      dsimp only
      split
      case isTrue => exact serveIndexScript_keeps _ useCache decoded rel redir now
      case isFalse =>
        rw [hknown fd st k rfl]
        exact serveOpenedScript_keeps k useCache rel fd st now

end Keeps

/-! ## Runs -/

namespace Worker

/-- The invariant: every opening of the worker has seen its file as it is, and what is to be
installed was seen on its own descriptor. -/
structure Inv (s : Worker) : Prop where
  own : s.Own
  current : ∀ o ∈ s.openings, s.fs.stat o.ino ∈ o.seen
  program : ∃ known, s.program.Keeps installProtocol (fun _ _ => True) known ∧
    ∀ fd st, known = some (fd, st) → ∃ o, s.holder fd = some o ∧ st ∈ o.seen

theorem start_inv (fs : FileSystem) (h : Handler) : (start fs h).Inv :=
  ⟨nofun, nofun, none, trivial, nofun⟩

section Steps

variable {s t : Worker}

/-- Nothing is forgotten of what a file was like. -/
theorem Inv.change (h : s.Inv) (fs : FileSystem) (hst : s.step (.change fs) = some t) : t.Inv := by
  cases hst
  constructor
  case own =>
    intro x hx
    obtain ⟨y, hy, rfl⟩ := List.mem_map.1 hx
    obtain ⟨o, ho, st, hst, hrec⟩ := h.own y hy
    refine ⟨o.watch fs, ?_, st, List.mem_cons_of_mem _ hst, hrec⟩
    rw [Install.watch, ho]
    rfl
  case current =>
    intro o ho
    obtain ⟨o', -, rfl⟩ := List.mem_map.1 ho
    exact List.mem_cons_self
  case program =>
    obtain ⟨known, hkeeps, hknown⟩ := h.program
    refine ⟨known, hkeeps, fun fd st hfd => ?_⟩
    obtain ⟨o, ho, hst⟩ := hknown fd st hfd
    refine ⟨o.watch fs, ?_, List.mem_cons_of_mem _ hst⟩
    change (s.openings.map (Opening.watch fs)).find? _ = _
    rw [List.find?_map]
    exact congrArg (Option.map (Opening.watch fs)) ho

theorem Inv.stat (h : s.Inv) {fails : Bool} (hst : s.step (.stat fails) = some t) : t.Inv := by
  obtain ⟨known, hkeeps, -⟩ := h.program
  rw [step] at hst
  cases hprogram : s.program with
  | done k =>
      rw [hprogram] at hst
      cases hst
  | call q next =>
      rw [hprogram] at hst hkeeps
      cases q with
      | fstatat k path =>
          cases hst
          exact ⟨h.own, h.current, none, hkeeps.2 _, nofun⟩
      | fstat k fd =>
          cases hst
          refine ⟨h.own, h.current, _, hkeeps.2 _, ?_⟩
          intro fd' st hknown
          -- What `fstat` reports is what the file is like now.
          obtain ⟨st', hstat, heq⟩ := Option.map_eq_some_iff.1 hknown
          cases heq
          cases fails with
          | true => cases hstat
          | false =>
              obtain ⟨o, ho, rfl⟩ := Option.map_eq_some_iff.1 hstat
              exact ⟨o, ho, h.current o (List.mem_of_find?_eq_some ho)⟩
      | openat k path checked => cases hst
      | install k i e => cases hst

theorem Inv.openat (h : s.Inv) {r : OpenResult} (hok : s.Unchanged (.openat r))
    (hst : s.step (.openat r) = some t) : t.Inv := by
  obtain ⟨known, hkeeps, -⟩ := h.program
  rw [step] at hst
  cases hprogram : s.program with
  | done k =>
      rw [hprogram] at hst
      cases hst
  | call q next =>
      rw [hprogram] at hst hkeeps
      cases q with
      | fstatat k path => cases hst
      | fstat k fd => cases hst
      | install k i e => cases hst
      | openat k path checked =>
          cases r with
          | again | notFound | forbidden | failed =>
              cases hst
              refine ⟨h.own, h.current, _, hkeeps.2 (k.givenOpen path _), ?_⟩
              intro fd st hknown
              cases hknown
          | opened fd =>
              obtain ⟨ino, hino, rfl⟩ := Option.map_eq_some_iff.1 hst
              refine ⟨h.own, ?_, _, hkeeps.2 _, ?_⟩
              · intro o ho
                rcases List.mem_cons.1 ho with rfl | ho
                · exact List.mem_singleton_self _
                · exact h.current o ho
              · intro fd' st hknown
                -- The check of the path is what the opened file is like.
                obtain ⟨st', rfl, heq⟩ := Option.map_eq_some_iff.1 hknown
                cases heq
                rw [Unchanged, hprogram] at hok
                have hsame := hok (path, st) rfl ino hino
                refine ⟨⟨fd, ino, [s.fs.stat ino]⟩, ?_, ?_⟩
                · exact List.find?_cons_of_pos (beq_self_eq_true fd)
                · rw [hsame]
                  exact List.mem_singleton_self st

theorem Inv.install (h : s.Inv) (hst : s.step .install = some t) : t.Inv := by
  obtain ⟨known, hkeeps, hknown⟩ := h.program
  rw [step] at hst
  cases hprogram : s.program with
  | done k =>
      rw [hprogram] at hst
      cases hst
  | call q next =>
      rw [hprogram] at hst hkeeps
      cases q with
      | fstatat k path => cases hst
      | fstat k fd => cases hst
      | openat k path checked => cases hst
      | install k i e =>
          cases hst
          obtain ⟨⟨st, hst, hrec⟩, hnext⟩ := hkeeps
          refine ⟨?_, h.current, none, hnext _, nofun⟩
          intro x hx
          rcases List.mem_cons.1 hx with rfl | hx
          · obtain ⟨o, ho, hseen⟩ := hknown e.fd st hst
            exact ⟨o, ho, st, hseen, hrec⟩
          · exact h.own x hx

theorem Inv.step {a : WorkerAction} (h : s.Inv) (hok : s.Unchanged a) (hst : s.step a = some t) : t.Inv := by
  cases a with
  | change fs => exact h.change fs hst
  | stat fails => exact h.stat hst
  | openat r => exact h.openat hok hst
  | install => exact h.install hst
  | serve useCache decoded rel redir now =>
      rw [Worker.step] at hst
      cases hprogram : s.program with
      | done k =>
          rw [hprogram] at hst
          cases hst
          exact ⟨h.own, h.current, none, servePathScript_keeps .., nofun⟩
      | call q next =>
          rw [hprogram] at hst
          cases hst
  | rest f =>
      rw [Worker.step] at hst
      cases hprogram : s.program with
      | done k =>
          rw [hprogram] at hst
          cases hst
          exact ⟨h.own, h.current, none, trivial, nofun⟩
      | call q next =>
          rw [hprogram] at hst
          cases hst

end Steps

end Worker

/-- While each checked path names, when it is opened, what it was checked to be, every installed
descriptor is recorded with what its own file was like since it was opened. -/
theorem installs_own (fs : FileSystem) (h : Handler) (acts : List WorkerAction)
    (hok : AllSteps Worker.step Worker.Unchanged (.start fs h) acts) :
    ∀ s ∈ runStates Worker.step (.start fs h) acts, s.Own := by
  intro s hs
  have hinv : s.Inv :=
    AllSteps.invariant (fun _ _ _ hi hgood hst => hi.step hgood hst) (Worker.start_inv fs h) hok s hs
  exact hinv.own

/-- All paths lead to one file: 7 and 8 are regular files of 5 and 9 bytes, 9 is a directory. -/
def fileSystemOf (ino : Nat) : FileSystem where
  named := fun _ => some ino
  linked := fun _ => some ino
  file := fun n => if n = 7 then ⟨.regular, 5, 0, 0, n⟩ else if n = 8 then ⟨.regular, 9, 1, 0, n⟩
    else ⟨.directory, 4096, 1, 0, n⟩

/-- The file 7 is served and stored; then the path names the file 8, and a recheck asks for it. -/
def recheckRun : List WorkerAction :=
  [.serve true (cstr "/a") (cstr "a") (cstr "/a") 0, .openat (.opened 3), .stat false, .install,
    .rest fun h => { h.httpConnCleanup with hc := getHandler.hc, arena := 0 },
    .change (fileSystemOf 8), .serve true (cstr "/a") (cstr "a") (cstr "/a") 2000, .stat false]

/-- Nothing happens before the path is opened. -/
theorem installs_own_recheck : ∃ s ∈ runStates Worker.step (.start (fileSystemOf 7) getHandler)
    (recheckRun ++ [.openat (.opened 4), .install]), s.installs.length = 2 ∧ s.Own := by
  obtain ⟨s, hs, hlen⟩ : ∃ s ∈ runStates Worker.step (.start (fileSystemOf 7) getHandler)
      (recheckRun ++ [.openat (.opened 4), .install]), s.installs.length = 2 :=
    exists_of_run (by decide +kernel)
  exact ⟨s, hs, hlen, installs_own _ _ _ (by decide +kernel) s hs⟩

/-- The directory is put in its place in between, and is served with the size of the file 8. -/
theorem swapped_directory : ∃ s ∈ runStates Worker.step (.start (fileSystemOf 7) getHandler)
    (recheckRun ++ [.change (fileSystemOf 9), .openat (.opened 4), .install]), ¬ s.Own := by
  obtain ⟨s, hs, hdir⟩ : ∃ s ∈ runStates Worker.step (.start (fileSystemOf 7) getHandler)
      (recheckRun ++ [.change (fileSystemOf 9), .openat (.opened 4), .install]),
      (s.installs.any fun x => x.opening.all fun o => o.seen.all fun st => st.kind == .directory) = true :=
    exists_of_run (by decide +kernel)
  refine ⟨s, hs, fun hown => ?_⟩
  obtain ⟨x, hx, hall⟩ := List.any_eq_true.1 hdir
  obtain ⟨o, ho, st, hst, hregular, -⟩ := hown x hx
  rw [ho] at hall
  have hkind := eq_of_beq (List.all_eq_true.1 hall st hst)
  rw [hregular] at hkind
  cases hkind

end TinyServer.Static
