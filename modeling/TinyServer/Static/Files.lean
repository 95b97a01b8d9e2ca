import Mathlib.Data.Fintype.Basic
import Mathlib.Data.Nat.Digits.Defs
import Mathlib.Logic.Function.Basic
import TinyServer.Http.Conn
import TinyServer.Static.Url

/-!
# The open-file cache (`static.c`)

A worker keeps descriptors of served files open in a table with linear probing. A
request that hits the table shares the descriptor and counts as one use of its entry.
When an entry is dropped or gets a new descriptor while the old one is in use, the old
one waits in the retired list for its last use to end.

`Handler` is what the functions of `static.c` read and write: the connection, its
arena, the cache of the worker, the file-system results to come and the kernel.
-/

set_option autoImplicit false

namespace TinyServer.Static

open TinyServer.Http TinyServer.Net

/-- The room for the head of a file. -/
def STATIC_HDR_SIZE : Nat := 256

/-- How often `openat2` is called again after EAGAIN. -/
def OPENAT2_EAGAIN_RETRIES : Nat := 8

/-- The entries of the cache. -/
def FILE_CACHE_SLOTS : Nat := 64

/-- The room for the path of an entry. -/
def FILE_CACHE_PATH : Nat := 192

/-- An entry is looked at again after this time. -/
def FILE_CACHE_RECHECK_MS : Nat := 1000

/-- The descriptors that were replaced while in use. -/
def FILE_CACHE_RETIRED : Nat := 8

/-- The greatest value of 16 bits. -/
def UINT16_MAX : Nat := 65535

/-- The size of a slot's arena. -/
def TINY_BUMP_SIZE : Nat := 12288

/-! ## The file system -/

/-- What `st_mode` says of a file. -/
inductive FileKind where
  | regular
  | directory
  | other
  deriving DecidableEq, Repr

/-- The fields of `struct stat` that are read. -/
structure Stat where
  kind : FileKind
  size : Int64
  mtimeSec : Int
  mtimeNsec : Int
  ino : Nat
  deriving DecidableEq, Repr

/-- A result of `openat2` or `open`: the errors that are told apart are `EAGAIN`, those
answered with 404 (`ENOENT`, `ENOTDIR`), those answered with 403 (`EACCES`, `EPERM`,
`ELOOP`), and the rest. -/
inductive OpenResult where
  | opened (fd : Nat)
  | again
  | notFound
  | forbidden
  | failed
  deriving DecidableEq, Repr

/-- The descriptor, if there is one. -/
def OpenResult.fd : OpenResult → Option Nat
  | opened fd => some fd
  | _ => none

/-- The results of the file-system calls to come. A call on an empty list fails; for
`sendfile`, it would block. -/
structure Disk where
  opens : List OpenResult
  fstats : List (Option Stat)
  fstatats : List (Option Stat)
  sendfiles : List ReadResult
  deriving DecidableEq, Repr

/-- No result is known: every call fails. -/
def Disk.quiet : Disk := ⟨[], [], [], []⟩

/-! ## The table -/

/-- `cached_file` with a descriptor. The flags of `fd`, -1 and -2, are the other cases
of `CacheSlot`. -/
structure CachedFile where
  hash : UInt64
  checkedMs : Nat
  mtimeSec : Int
  mtimeNsec : Int
  size : Int64
  ino : Nat
  mime : List UInt8
  fd : Nat
  uses : Nat
  path : List UInt8
  deriving DecidableEq, Repr

/-- An empty entry stops a probe, a tombstone does not. -/
inductive CacheSlot where
  | empty
  | tombstone
  | live (file : CachedFile)
  deriving DecidableEq, Repr

/-- `retired_fd`. -/
structure RetiredFd where
  fd : Nat
  uses : Nat
  deriving DecidableEq, Repr

/-- `file_cache_ready`, `file_cache` and `file_cache_retired`. `dropped` records the
descriptors that `retire_fd` found no place for; no code reads it. -/
structure FileCache where
  ready : Bool
  entries : Fin FILE_CACHE_SLOTS → CacheSlot
  retired : Fin FILE_CACHE_RETIRED → Option RetiredFd
  dropped : List Nat
  deriving DecidableEq

namespace FileCache

/-- The cache of a new worker. -/
def fresh : FileCache := ⟨false, fun _ => .empty, fun _ => none, []⟩

/-- `file_cache_init`. -/
def init (c : FileCache) : FileCache :=
  if c.ready then c else ⟨true, fun _ => .empty, fun _ => none, c.dropped⟩

/-- The entry `i` is overwritten. -/
def setEntry (c : FileCache) (i : Fin FILE_CACHE_SLOTS) (e : CacheSlot) : FileCache :=
  { c with entries := Function.update c.entries i e }

/-- The retired descriptor `i` is overwritten. -/
def setRetired (c : FileCache) (i : Fin FILE_CACHE_RETIRED) (r : Option RetiredFd) : FileCache :=
  { c with retired := Function.update c.retired i r }

end FileCache

/-- `path_hash`. -/
def pathHash (s : List UInt8) : UInt64 :=
  let h := s.foldl (fun h c => (h ^^^ c.toUInt64) * 1099511628211) 14695981039346656037
  if h = 0 then 1 else h

/-- `(uint32_t)hash & (FILE_CACHE_SLOTS - 1)`. -/
def probeStart (hash : UInt64) : Fin FILE_CACHE_SLOTS :=
  ⟨hash.toUInt32.toNat % FILE_CACHE_SLOTS, Nat.mod_lt _ (by decide)⟩

/-- `(slot + 1) & (FILE_CACHE_SLOTS - 1)`. -/
def probeNext (i : Fin FILE_CACHE_SLOTS) : Fin FILE_CACHE_SLOTS :=
  ⟨(i.val + 1) % FILE_CACHE_SLOTS, Nat.mod_lt _ (by decide)⟩

/-- The loop of `file_cache_find`. -/
def findLoop (c : FileCache) (hash : UInt64) (path : List UInt8) :
    Nat → Fin FILE_CACHE_SLOTS → Option (Fin FILE_CACHE_SLOTS × CachedFile)
  | 0, _ => none
  | n + 1, i =>
      match c.entries i with
      | .empty => none
      | .tombstone => findLoop c hash path n (probeNext i)
      | .live e =>
          if e.hash = hash ∧ e.path = path then some (i, e)
          else findLoop c hash path n (probeNext i)

/-- `file_cache_find`, with the initialized table. -/
def fileCacheFind (c : FileCache) (path : List UInt8) :
    FileCache × Option (Fin FILE_CACHE_SLOTS × CachedFile) :=
  let c := c.init
  if path.length = 0 ∨ FILE_CACHE_PATH ≤ path.length then (c, none)
  else
    let hash := pathHash path
    (c, findLoop c hash path FILE_CACHE_SLOTS (probeStart hash))

/-- The loop of `file_cache_store`: the first empty entry, or else the first
tombstone. -/
def storeLoop (c : FileCache) : Nat → Fin FILE_CACHE_SLOTS → Option (Fin FILE_CACHE_SLOTS) →
    Option (Fin FILE_CACHE_SLOTS)
  | 0, _, reuse => reuse
  | n + 1, i, reuse =>
      match c.entries i with
      | .empty => some i
      | .tombstone => storeLoop c n (probeNext i) (reuse.orElse fun _ => some i)
      | .live _ => storeLoop c n (probeNext i) reuse

/-- `fill_entry`. -/
def fillEntry (hash : UInt64) (path : List UInt8) (fd : Nat) (st : Stat) (mime : List UInt8)
    (now : Nat) : CachedFile where
  hash := hash
  checkedMs := now
  mtimeSec := st.mtimeSec
  mtimeNsec := st.mtimeNsec
  size := st.size
  ino := st.ino
  mime := mime
  fd := fd
  uses := 0
  path := path

/-- `file_cache_store`, with the entry that now owns the descriptor. -/
def fileCacheStore (c : FileCache) (path : List UInt8) (fd : Nat) (st : Stat)
    (mime : List UInt8) (now : Nat) : FileCache × Option (Fin FILE_CACHE_SLOTS) :=
  let c := c.init
  if path.length = 0 ∨ FILE_CACHE_PATH ≤ path.length then (c, none)
  else
    let hash := pathHash path
    match storeLoop c FILE_CACHE_SLOTS (probeStart hash) none with
    | none => (c, none)
    | some i => (c.setEntry i (.live (fillEntry hash path fd st mime now)), some i)

/-- `file_cache_hold`. -/
def fileCacheHold (c : FileCache) (i : Fin FILE_CACHE_SLOTS) : FileCache :=
  match c.entries i with
  | .live e => if e.uses < UINT16_MAX then c.setEntry i (.live { e with uses := e.uses + 1 }) else c
  | _ => c

/-- `same_meta`. -/
def sameMeta (e : CachedFile) (st : Stat) : Bool :=
  st.size == e.size && st.mtimeSec == e.mtimeSec && st.mtimeNsec == e.mtimeNsec &&
    st.ino == e.ino

/-- The difference of two `uint64_t`. -/
def sub64 (a b : Nat) : Nat := if b ≤ a then a - b else 2 ^ 64 - (b - a)

/-! ## File types -/

/-- The extension in `mime_from_path`: what follows the last dot of the last segment. -/
def extensionLoop : List UInt8 → Option (List UInt8) → Option (List UInt8)
  | [], ext => ext
  | c :: p, ext =>
      if c = SLASH then extensionLoop p none
      else if c = DOT then extensionLoop p (some p)
      else extensionLoop p ext

/-- `ext_ieq`. -/
def extIeq (ext lit : List UInt8) : Bool := ext.map asciiLower == lit

/-- `mime_from_path`. -/
def mimeFromPath (path : List UInt8) : List UInt8 :=
  match extensionLoop path none with
  | none => cstr "application/octet-stream"
  | some ext =>
      if ext = [] then cstr "application/octet-stream"
      else if extIeq ext (cstr "html") then cstr "text/html; charset=utf-8"
      else if extIeq ext (cstr "htm") then cstr "text/html; charset=utf-8"
      else if extIeq ext (cstr "css") then cstr "text/css; charset=utf-8"
      else if extIeq ext (cstr "js") then cstr "text/javascript; charset=utf-8"
      else if extIeq ext (cstr "json") then cstr "application/json"
      else if extIeq ext (cstr "png") then cstr "image/png"
      else if extIeq ext (cstr "jpg") then cstr "image/jpeg"
      else if extIeq ext (cstr "jpeg") then cstr "image/jpeg"
      else if extIeq ext (cstr "gif") then cstr "image/gif"
      else if extIeq ext (cstr "svg") then cstr "image/svg+xml"
      else if extIeq ext (cstr "ico") then cstr "image/x-icon"
      else if extIeq ext (cstr "txt") then cstr "text/plain; charset=utf-8"
      else if extIeq ext (cstr "wasm") then cstr "application/wasm"
      else cstr "application/octet-stream"

/-! ## Calls -/

/-- What the functions of `static.c` work on: the slot, its arena, the cache and what the system
will answer. -/
structure Handler where
  hc : HttpConn
  arena : Nat
  cache : FileCache
  disk : Disk
  kernel : Kernel

/-- A connection with a GET, in a worker that has no file open. -/
def getHandler : Handler where
  hc :=
    { fd := some 8, buf := [], headerCap := 4096, readTimeoutMs := 0, sendTimeoutMs := 10000
      keepaliveMs := 0, req := { HttpRequest.zero with method := .get, minorVersion := 1 }, phase := .read
      sendBody := false, corkOn := false, keep := false, fileOwned := true, statusCode := 0
      deadlineMs := 0, lastActiveMs := 0, fixed := [], fixedOff := 0, outHdr := []
      outHdrOff := 0, fileFd := none, fileSize := 0, fileOff := 0 }
  arena := 0
  cache := .fresh
  disk := .quiet
  kernel := ⟨.quiet, .empty⟩

namespace Handler

/-- `bump_alloc` with alignment 1; `none` where it fails. -/
def bumpAlloc (h : Handler) (size : Nat) : Option Handler :=
  if TINY_BUMP_SIZE - h.arena < size then none else some { h with arena := h.arena + size }

/-- `close`. -/
def close (h : Handler) (fd : Nat) : Handler := { h with kernel := h.kernel.close fd }

/-- One `openat2` or `open`. -/
def openFile (h : Handler) (path : List UInt8) : OpenResult × Handler :=
  let r := h.disk.opens.headD .notFound
  (r, { h with
    disk := { h.disk with opens := h.disk.opens.tail }
    kernel := h.kernel.call (.openFile path r.fd) })

/-- The loop of `open_under`; `errno` is still `EAGAIN` when the tries are used up. -/
def openLoop (path : List UInt8) : Nat → Handler → OpenResult × Handler
  | 0, h => (.again, h)
  | n + 1, h =>
      let r := h.openFile path
      if r.1 = .again then openLoop path n r.2 else r

/-- `open_under`. -/
def openUnder (h : Handler) (path : List UInt8) : OpenResult × Handler :=
  openLoop path OPENAT2_EAGAIN_RETRIES h

/-- `fstat`. -/
def fstat (h : Handler) : Option Stat × Handler :=
  (h.disk.fstats.headD none, { h with disk := { h.disk with fstats := h.disk.fstats.tail } })

/-- `fstatat`. -/
def fstatat (h : Handler) : Option Stat × Handler :=
  (h.disk.fstatats.headD none,
    { h with disk := { h.disk with fstatats := h.disk.fstatats.tail } })

/-! ## Descriptors that leave the table -/

/-- The first free place of the retired list. -/
def freeRetired (c : FileCache) : Option (Fin FILE_CACHE_RETIRED) :=
  (List.finRange FILE_CACHE_RETIRED).find? fun i => (c.retired i).isNone

/-- `retire_fd`. -/
def retireFd (h : Handler) (fd uses : Nat) : Handler :=
  if uses = 0 then h.close fd
  else
    match freeRetired h.cache with
    | some i => { h with cache := h.cache.setRetired i (some ⟨fd, uses⟩) }
    -- The descriptor stays open for its holders, and nothing refers to it any more.
    | none => { h with cache := { h.cache with dropped := h.cache.dropped ++ [fd] } }

/-- `tombstone`. -/
def tombstone (h : Handler) (i : Fin FILE_CACHE_SLOTS) (e : CachedFile) : Handler :=
  { h with cache := h.cache.setEntry i .tombstone }.retireFd e.fd e.uses

/-- `file_cache_recheck` for the entry `e` at `i`; `none` where it was dropped. -/
def fileCacheRecheck (h : Handler) (i : Fin FILE_CACHE_SLOTS) (e : CachedFile) (now : Nat) :
    Option CachedFile × Handler :=
  -- checked less than `FILE_CACHE_RECHECK_MS` ago
  if sub64 now e.checkedMs < FILE_CACHE_RECHECK_MS then (some e, h)
  else
    let s := h.fstatat
    match s.1 with
    | none => (none, s.2.tombstone i e)
    | some st =>
        -- it is no regular file any more
        if st.kind ≠ .regular ∨ st.size < 0 then (none, s.2.tombstone i e)
        -- the same file: only the time of the check changes
        else if sameMeta e st then
          let e := { e with checkedMs := now }
          (some e, { s.2 with cache := s.2.cache.setEntry i (.live e) })
        else
          -- another file has the name: it is opened, and takes the place of the old one
          let o := s.2.openUnder e.path
          match o.1 with
          | .opened fd =>
              let h := o.2.retireFd e.fd e.uses
              let e := { e with
                fd := fd
                uses := 0
                size := st.size
                mtimeSec := st.mtimeSec
                mtimeNsec := st.mtimeNsec
                ino := st.ino
                mime := mimeFromPath e.path
                checkedMs := now }
              (some e, { h with cache := h.cache.setEntry i (.live e) })
          | _ => (none, o.2.tombstone i e)

/-- The table entry that `static_cache_release` finds. -/
def cachedAt (c : FileCache) (fd : Nat) : Option (Fin FILE_CACHE_SLOTS × CachedFile) :=
  (List.finRange FILE_CACHE_SLOTS).findSome? fun i =>
    match c.entries i with
    | .live e => if e.fd = fd then some (i, e) else none
    | _ => none

/-- The retired descriptor with the number `fd`. -/
def retiredAt (c : FileCache) (fd : Nat) : Option (Fin FILE_CACHE_RETIRED × RetiredFd) :=
  (List.finRange FILE_CACHE_RETIRED).findSome? fun i =>
    match c.retired i with
    | some r => if r.fd = fd then some (i, r) else none
    | none => none

/-- `static_cache_release`. -/
def staticCacheRelease (h : Handler) (fd : Nat) : Handler :=
  if !h.cache.ready then h
  else
    match cachedAt h.cache fd with
    -- the descriptor stays in the table for the next request
    | some (i, e) => { h with cache := h.cache.setEntry i (.live { e with uses := e.uses - 1 }) }
    | none =>
        match retiredAt h.cache fd with
        | none => h
        | some (i, r) =>
            let uses := r.uses - 1
            -- the last user of a retired file closes it
            if uses = 0 then { h.close fd with cache := h.cache.setRetired i none }
            else { h with cache := h.cache.setRetired i (some ⟨r.fd, uses⟩) }

/-- The two loops of `static_cache_clear`. -/
def staticCacheClear (h : Handler) : Handler :=
  if !h.cache.ready then h
  else
    -- the uses are not looked at: the worker is about to end
    let h := (List.finRange FILE_CACHE_SLOTS).foldl (fun h i =>
      match h.cache.entries i with
      | .live e => { h.close e.fd with cache := h.cache.setEntry i .empty }
      | _ => h) h
    let h := (List.finRange FILE_CACHE_RETIRED).foldl (fun h i =>
      match h.cache.retired i with
      | some r => { h.close r.fd with cache := h.cache.setRetired i none }
      | none => h) h
    { h with cache := { h.cache with ready := false } }

end Handler

end TinyServer.Static
