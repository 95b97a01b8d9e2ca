import TinyServer.Lib.Script
import TinyServer.Static.Calls

/-!
# `static_serve`, cut at its system calls

The functions of `Files` and `Serve` take the results of their system calls from lists. Here
the same functions are scripts: between two calls of a script the file system may change. An
answer is put in front of the results to come, and the function of `Files` takes it from
there; with the lists as they are, the scripts are those functions (`servePathScript_run`).

The store of a new descriptor in an entry of the table is a call of its own (`install`).
-/

set_option autoImplicit false

namespace TinyServer.Static

open TinyServer.Http TinyServer.Net TinyServer.Lib

/-- The calls, each with what the worker has at the time. `checked` is what `fstatat` has
reported on the path that is opened. -/
inductive CacheCall where
  | fstatat (h : Handler) (path : List UInt8)
  | openat (h : Handler) (path : List UInt8) (checked : Option Stat)
  | fstat (h : Handler) (fd : Nat)
  | install (h : Handler) (i : Fin FILE_CACHE_SLOTS) (e : CachedFile)

namespace CacheCall

/-- What a call gives back, with the handler after it. -/
def Answer : CacheCall → Type
  | fstatat _ _ => Option Stat × Handler
  | openat _ _ _ => OpenResult × Handler
  | fstat _ _ => Option Stat × Handler
  | install _ _ _ => Handler

/-- The answers that the lists hold. -/
def answer : (q : CacheCall) → q.Answer
  | fstatat h _ => h.fstatat
  | openat h path _ => h.openFile path
  | fstat h _ => h.fstat
  | install h i e => { h with cache := h.cache.setEntry i (.live e) }

end CacheCall

/-- A script of calls of the cache. -/
abbrev ServeScript (α : Type) : Type := Script CacheCall CacheCall.Answer α

namespace Handler

/-! ## Answers from outside -/

/-- `fstatat` where it gives `r`. -/
def givenFstatat (h : Handler) (r : Option Stat) : Option Stat × Handler :=
  { h with disk := { h.disk with fstatats := r :: h.disk.fstatats } }.fstatat

/-- `openat2` or `open` where it gives `r`. -/
def givenOpen (h : Handler) (path : List UInt8) (r : OpenResult) : OpenResult × Handler :=
  { h with disk := { h.disk with opens := r :: h.disk.opens } }.openFile path

/-- `fstat` where it gives `r`. -/
def givenFstat (h : Handler) (r : Option Stat) : Option Stat × Handler :=
  { h with disk := { h.disk with fstats := r :: h.disk.fstats } }.fstat

@[simp] theorem givenFstatat_fst (h : Handler) (r : Option Stat) : (h.givenFstatat r).1 = r := rfl

@[simp] theorem givenOpen_fst (h : Handler) (path : List UInt8) (r : OpenResult) :
    (h.givenOpen path r).1 = r := rfl

@[simp] theorem givenFstat_fst (h : Handler) (r : Option Stat) : (h.givenFstat r).1 = r := rfl

/-! ## The scripts -/

/-- The loop of `open_under`. -/
def openLoopScript (path : List UInt8) (checked : Option Stat) :
    Nat → Handler → ServeScript (OpenResult × Handler)
  | 0, h => .done (.again, h)
  | n + 1, h => .call (.openat h path checked) fun r =>
      if r.1 = .again then openLoopScript path checked n r.2 else .done r

/-- `open_under`. -/
def openUnderScript (h : Handler) (path : List UInt8) (checked : Option Stat) :
    ServeScript (OpenResult × Handler) :=
  openLoopScript path checked OPENAT2_EAGAIN_RETRIES h

/-- `file_cache_recheck`. -/
def fileCacheRecheckScript (h : Handler) (i : Fin FILE_CACHE_SLOTS) (e : CachedFile) (now : Nat) :
    ServeScript (Option CachedFile × Handler) :=
  if sub64 now e.checkedMs < FILE_CACHE_RECHECK_MS then .done (some e, h)
  else .call (.fstatat h e.path) fun s =>
    match s.1 with
    | none => .done (none, s.2.tombstone i e)
    | some st =>
        if st.kind ≠ .regular ∨ st.size < 0 then .done (none, s.2.tombstone i e)
        else if sameMeta e st then
          let e := { e with checkedMs := now }
          .done (some e, { s.2 with cache := s.2.cache.setEntry i (.live e) })
        else (s.2.openUnderScript e.path (some st)).bind fun o =>
          match o.1 with
          | .opened fd =>
              let h := o.2.retireFd e.fd e.uses
              let e := { e with
                fd := fd
                uses := 0
                size := st.size
                mtimeSec := st.mtimeSec
                mtimeNsec := st.mtimeNsec
                ino := st.ino
                mime := mimeFromPath e.path
                checkedMs := now }
              .call (.install h i e) fun h => .done (some e, h)
          | _ => .done (none, o.2.tombstone i e)

/-- `file_cache_store`. -/
def fileCacheStoreScript (h : Handler) (path : List UInt8) (fd : Nat) (st : Stat)
    (mime : List UInt8) (now : Nat) : ServeScript (FileCache × Option (Fin FILE_CACHE_SLOTS)) :=
  let c := h.cache.init
  if path.length = 0 ∨ FILE_CACHE_PATH ≤ path.length then .done (c, none)
  else
    let hash := pathHash path
    match storeLoop c FILE_CACHE_SLOTS (probeStart hash) none with
    | none => .done (c, none)
    | some i => .call (.install { h with cache := c } i (fillEntry hash path fd st mime now)) fun h =>
        .done (h.cache, some i)

/-- The script for a path that is looked for in the cache. -/
def serveCachedScript (h : Handler) (rel : List UInt8) (now : Nat) : ServeScript (Bool × Handler) :=
  let f := fileCacheFind h.cache rel
  let h := { h with cache := f.1 }
  match f.2 with
  | none => .done (false, h)
  | some (i, e) => (h.fileCacheRecheckScript i e now).bind fun r =>
      match r.1 with
      | none => .done (false, r.2)
      | some e =>
          let h := { r.2 with cache := fileCacheHold r.2.cache i }
          .done (true, h.armRegular e.fd e.size e.mime false now)

/-- The script for a path that is opened. -/
def statOpenedScript (o : OpenResult × Handler) (now : Nat) :
    ServeScript (Except Handler (Nat × Stat × Handler)) :=
  match o.1 with
  | .opened fd => .call (.fstat o.2 fd) fun s =>
      match s.1 with
      | none => .done (.error ((s.2.close fd).armClose RESPONSE_500 500 now))
      | some st => .done (.ok (fd, st, s.2))
  | r => .done (.error (o.2.armOpenError r now))

/-- The end of `static_serve`. -/
def serveOpenedScript (h : Handler) (useCache : Bool) (rel : List UInt8) (fd : Nat) (st : Stat)
    (now : Nat) : ServeScript Handler :=
  if st.kind ≠ .regular ∨ st.size < 0 then
    .done ((h.close fd).armKeepable RESPONSE_403_CLOSE RESPONSE_403_KEEP 403 now)
  else
    let mime := mimeFromPath rel
    if useCache then (h.fileCacheStoreScript rel fd st mime now).bind fun s =>
      match s.2 with
      | some i => .done ({ h with cache := fileCacheHold s.1 i }.armRegular fd st.size mime false now)
      | none => .done ({ h with cache := s.1 }.armRegular fd st.size mime true now)
    else .done (h.armRegular fd st.size mime true now)

/-- The table, and where it has no answer the file. -/
def fetchScript (h : Handler) (useCache : Bool) (rel : List UInt8) (now : Nat) :
    ServeScript (Except Handler (Nat × Stat × Handler)) :=
  (if useCache then h.serveCachedScript rel now else .done (false, h)).bind fun c =>
    if c.1 then .done (.error c.2)
    else (c.2.openUnderScript rel none).bind fun o => statOpenedScript o now

/-- `static_serve` for a directory. -/
def serveIndexScript (h : Handler) (useCache : Bool) (decoded rel redir : List UInt8) (now : Nat) :
    ServeScript Handler :=
  if decoded.getLast? ≠ some SLASH then .done (h.armDirRedirect redir now)
  else if STATIC_PATH_MAX ≤ rel.length + 11 then
    .done (h.armKeepable RESPONSE_404_CLOSE RESPONSE_404_KEEP 404 now)
  else
    let rel := rel ++ cstr "/index.html"
    (h.fetchScript useCache rel now).bind fun r =>
      match r with
      | .error h => .done h
      | .ok (fd, st, h) => h.serveOpenedScript useCache rel fd st now

/-- `static_serve` once the path is known. -/
def servePathScript (h : Handler) (useCache : Bool) (decoded rel redir : List UInt8) (now : Nat) :
    ServeScript Handler :=
  (h.fetchScript useCache rel now).bind fun r =>
    match r with
    | .error h => .done h
    | .ok (fd, st, h) =>
        if st.kind = .directory then (h.close fd).serveIndexScript useCache decoded rel redir now
        else h.serveOpenedScript useCache rel fd st now

/-! ## The scripts are the functions -/

theorem openLoopScript_run (path : List UInt8) (checked : Option Stat) (n : Nat) :
    ∀ h, (openLoopScript path checked n h).run CacheCall.answer = openLoop path n h := by
  induction n with
  | zero => exact fun _ => rfl
  | succ n ih =>
      intro h
      rw [openLoopScript, openLoop, Script.run_call, Script.run_ite, ih]
      rfl

theorem openUnderScript_run (h : Handler) (path : List UInt8) (checked : Option Stat) :
    (h.openUnderScript path checked).run CacheCall.answer = h.openUnder path :=
  openLoopScript_run path checked _ h

theorem fileCacheRecheckScript_run (h : Handler) (i : Fin FILE_CACHE_SLOTS) (e : CachedFile) (now : Nat) :
    (h.fileCacheRecheckScript i e now).run CacheCall.answer = h.fileCacheRecheck i e now := by
  rw [fileCacheRecheckScript, fileCacheRecheck, Script.run_ite, Script.run_done, Script.run_call]
  apply if_congr Iff.rfl rfl
  dsimp only [CacheCall.answer]
  generalize h.fstatat = s
  obtain ⟨r, k⟩ := s
  cases r with
  | none => rfl
  | some st =>
      dsimp only
      rw [Script.run_ite, Script.run_ite, Script.run_bind, openUnderScript_run]
      apply if_congr Iff.rfl rfl
      apply if_congr Iff.rfl rfl
      generalize k.openUnder e.path = o
      obtain ⟨r, k⟩ := o
      cases r with
      | opened fd => rfl
      | again | notFound | forbidden | failed => rfl

theorem fileCacheStoreScript_run (h : Handler) (path : List UInt8) (fd : Nat) (st : Stat)
    (mime : List UInt8) (now : Nat) :
    (h.fileCacheStoreScript path fd st mime now).run CacheCall.answer
      = fileCacheStore h.cache path fd st mime now := by
  rw [fileCacheStoreScript, fileCacheStore]
  dsimp only
  rw [Script.run_ite, Script.run_done]
  apply if_congr Iff.rfl rfl
  cases storeLoop h.cache.init FILE_CACHE_SLOTS (probeStart (pathHash path)) none with
  | none => rfl
  | some i => rfl

theorem serveCachedScript_run (h : Handler) (rel : List UInt8) (now : Nat) :
    (h.serveCachedScript rel now).run CacheCall.answer = h.serveCached rel now := by
  rw [serveCachedScript, serveCached]
  dsimp only
  cases (fileCacheFind h.cache rel).2 with
  | none => rfl
  | some f =>
      dsimp only
      rw [Script.run_bind, fileCacheRecheckScript_run]
      cases ({ h with cache := (fileCacheFind h.cache rel).1 }.fileCacheRecheck f.1 f.2 now).1 with
      | none => rfl
      | some e => rfl

theorem statOpenedScript_run (o : OpenResult × Handler) (now : Nat) :
    (statOpenedScript o now).run CacheCall.answer = statOpened o now := by
  rw [statOpenedScript, statOpened]
  cases o.1 with
  | opened fd =>
      dsimp only
      rw [Script.run_call]
      dsimp only [CacheCall.answer]
      cases o.2.fstat.1 with
      | none => rfl
      | some st => rfl
  | again | notFound | forbidden | failed => rfl

theorem serveOpenedScript_run (h : Handler) (useCache : Bool) (rel : List UInt8) (fd : Nat) (st : Stat)
    (now : Nat) : (h.serveOpenedScript useCache rel fd st now).run CacheCall.answer
      = h.serveOpened useCache rel fd st now := by
  rw [serveOpenedScript, serveOpened]
  dsimp only
  rw [Script.run_ite, Script.run_ite, Script.run_bind, fileCacheStoreScript_run]
  apply if_congr Iff.rfl rfl
  apply if_congr Iff.rfl _ rfl
  cases (fileCacheStore h.cache rel fd st (mimeFromPath rel) now).2 with
  | none => rfl
  | some i => rfl

theorem fetchScript_run (h : Handler) (useCache : Bool) (rel : List UInt8) (now : Nat) :
    (h.fetchScript useCache rel now).run CacheCall.answer = h.fetch useCache rel now := by
  have htable : (if useCache then h.serveCachedScript rel now else .done (false, h)).run CacheCall.answer
      = if useCache then h.serveCached rel now else (false, h) := by
    rw [Script.run_ite, serveCachedScript_run]
    rfl
  rw [fetchScript, fetch, Script.run_bind, htable, Script.run_ite, Script.run_bind, openUnderScript_run,
    statOpenedScript_run]
  rfl

theorem serveIndexScript_run (h : Handler) (useCache : Bool) (decoded rel redir : List UInt8) (now : Nat) :
    (h.serveIndexScript useCache decoded rel redir now).run CacheCall.answer
      = h.serveIndex useCache decoded rel redir now := by
  rw [serveIndexScript, serveIndex_eq, Script.run_ite, Script.run_ite]
  dsimp only
  rw [Script.run_bind, fetchScript_run]
  apply if_congr Iff.rfl rfl
  apply if_congr Iff.rfl rfl
  cases h.fetch useCache (rel ++ cstr "/index.html") now with
  | error k => rfl
  | ok r => exact serveOpenedScript_run ..

theorem servePathScript_run (h : Handler) (useCache : Bool) (decoded rel redir : List UInt8) (now : Nat) :
    (h.servePathScript useCache decoded rel redir now).run CacheCall.answer
      = h.servePath useCache decoded rel redir now := by
  rw [servePathScript, servePath_eq, Script.run_bind, fetchScript_run]
  cases h.fetch useCache rel now with
  | error k => rfl
  | ok r =>
      obtain ⟨fd, st, k⟩ := r
      dsimp only
      rw [Script.run_ite, serveIndexScript_run, serveOpenedScript_run]

end Handler

end TinyServer.Static
