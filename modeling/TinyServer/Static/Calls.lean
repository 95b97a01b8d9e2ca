import TinyServer.Static.Armed

/-!
# The calls of `static_serve`

`static_serve` takes memory from the arena of its slot (`bump_alloc`), prints a head
(`snprintf`) and asks the file system. The functions below list these calls in order, each
with its result, along the branches of the functions they are named after. `spent` is the
check that the list is that of the code: what the calls took is what is gone from the arena
(`staticServe_arena`).
-/

set_option autoImplicit false

namespace TinyServer.Static

open TinyServer.Http TinyServer.Net

/-- A call with what it was given and what came of it. -/
inductive StaticCall where
  /-- `bump_alloc` of `size` bytes while `room` are left. -/
  | alloc (size room : Nat)
  /-- `snprintf` of a text of `len` bytes into a buffer of `size`. -/
  | format (len size : Nat)
  /-- `open_under`, or `open` for a route to a single file. -/
  | openFile (path : List UInt8) (result : OpenResult)
  /-- `fstat` of the descriptor that was opened for `path`. -/
  | fstat (path : List UInt8) (result : Option Stat)
  /-- `fstatat`. -/
  | fstatat (path : List UInt8) (result : Option Stat)
  /-- `arm_regular` armed the file that was opened for `path`. -/
  | armed (path : List UInt8)
  deriving DecidableEq, Repr

namespace StaticCall

/-- The memory suffices; `snprintf` needs a byte for the NUL. -/
def Fits : StaticCall → Prop
  | alloc size room => size ≤ room
  | format len size => len < size
  | _ => True

instance : DecidablePred Fits
  | alloc size room => inferInstanceAs (Decidable (size ≤ room))
  | format len size => inferInstanceAs (Decidable (len < size))
  | openFile .. | fstat .. | fstatat .. | armed _ => isTrue trivial

/-- What the call took from the arena. -/
def spent : StaticCall → Nat
  | alloc size room => if size ≤ room then size else 0
  | _ => 0

end StaticCall

namespace Handler

/-! ## The lists -/

/-- The bytes that are left in the arena. -/
def room (h : Handler) : Nat := TINY_BUMP_SIZE - h.arena

/-- The query of the request. -/
def query (h : Handler) : List UInt8 :=
  (h.hc.buf.drop h.hc.req.query.off).take h.hc.req.query.len

/-- The `need` of `arm_dir_redirect`. -/
def redirectNeed (h : Handler) (path : List UInt8) : Nat :=
  160 + path.length + 1 + (if h.query = [] then 0 else 1 + h.query.length)

/-- The calls of `arm_dir_redirect`. -/
def armDirRedirectCalls (h : Handler) (path : List UInt8) : List StaticCall :=
  let need := h.redirectNeed path
  .alloc need h.room ::
    if h.room < need then []
    else [.format (redirectHeader path h.query (httpShouldKeepalive h.hc.req)).length need]

/-- `path` is the path that the descriptor was opened for. -/
def armRegularCalls (h : Handler) (path : List UInt8) (size : Int64) (mime : List UInt8) :
    List StaticCall :=
  let len := (okHeader size.toInt mime (httpShouldKeepalive h.hc.req)).length
  .alloc STATIC_HDR_SIZE h.room ::
    if h.room < STATIC_HDR_SIZE then []
    else .format len STATIC_HDR_SIZE :: if STATIC_HDR_SIZE ≤ len then [] else [.armed path]

/-- The calls of `file_cache_recheck`. -/
def fileCacheRecheckCalls (h : Handler) (e : CachedFile) (now : Nat) : List StaticCall :=
  if sub64 now e.checkedMs < FILE_CACHE_RECHECK_MS then []
  else
    let s := h.fstatat
    .fstatat e.path s.1 ::
      match s.1 with
      | none => []
      | some st =>
          if st.kind ≠ .regular ∨ st.size < 0 then []
          -- the same file still, so nothing is opened
          else if sameMeta e st then []
          else [.openFile e.path (s.2.openUnder e.path).1]

/-- The calls for a path that is looked for in the cache. -/
def serveCachedCalls (h : Handler) (rel : List UInt8) (now : Nat) : List StaticCall :=
  let f := fileCacheFind h.cache rel
  let h := { h with cache := f.1 }
  match f.2 with
  | none => []
  | some (i, e) =>
      let r := h.fileCacheRecheck i e now
      h.fileCacheRecheckCalls e now ++
        match r.1 with
        | none => []
        | some e' => r.2.armRegularCalls rel e'.size e'.mime

/-- The calls for a path that is opened. -/
def statOpenedCalls (rel : List UInt8) (o : OpenResult × Handler) : List StaticCall :=
  .openFile rel o.1 ::
    match o.1 with
    | .opened _ => [.fstat rel o.2.fstat.1]
    | _ => []

/-- The table is asked for `rel`, and where it has no answer the file is opened: both
halves of `static_serve` begin so. The error is an answer that is armed. -/
def fetch (h : Handler) (useCache : Bool) (rel : List UInt8) (now : Nat) :
    Except Handler (Nat × Stat × Handler) :=
  let c := if useCache then h.serveCached rel now else (false, h)
  if c.1 then .error c.2 else statOpened (c.2.openUnder rel) now

/-- The calls up to the file or its entry. -/
def fetchCalls (h : Handler) (useCache : Bool) (rel : List UInt8) (now : Nat) :
    List StaticCall :=
  let c := if useCache then h.serveCached rel now else (false, h)
  (if useCache then h.serveCachedCalls rel now else []) ++
    if c.1 then [] else statOpenedCalls rel (c.2.openUnder rel)

/-- The calls for a file that is open. -/
def serveOpenedCalls (h : Handler) (rel : List UInt8) (st : Stat) : List StaticCall :=
  if st.kind ≠ .regular ∨ st.size < 0 then []
  else h.armRegularCalls rel st.size (mimeFromPath rel)

/-- The calls for a directory. -/
def serveIndexCalls (h : Handler) (useCache : Bool) (decoded rel redir : List UInt8)
    (now : Nat) : List StaticCall :=
  if decoded.getLast? ≠ some SLASH then h.armDirRedirectCalls redir
  else if STATIC_PATH_MAX ≤ rel.length + 11 then []
  else
    let rel := rel ++ cstr "/index.html"
    h.fetchCalls useCache rel now ++
      match h.fetch useCache rel now with
      | .error _ => []
      | .ok (_, st, h) => h.serveOpenedCalls rel st

/-- The calls for a path that was decoded. -/
def servePathCalls (h : Handler) (useCache : Bool) (decoded rel redir : List UInt8)
    (now : Nat) : List StaticCall :=
  h.fetchCalls useCache rel now ++
    match h.fetch useCache rel now with
    | .error _ => []
    | .ok (fd, st, h) =>
        if st.kind = .directory then (h.close fd).serveIndexCalls useCache decoded rel redir now
        else h.serveOpenedCalls rel st

/-- The calls of `static_serve`. -/
def staticServeCalls (allowDotfiles : Bool) (h : Handler) (dirFd : Option Nat)
    (useCache : Bool) (url : List UInt8) (urlLen : UInt16) (redir : List UInt8) (now : Nat) :
    List StaticCall :=
  if h.hc.req.method ≠ .get ∧ h.hc.req.method ≠ .head then []
  else if dirFd = none then []
  else
    .alloc STATIC_PATH_MAX h.room ::
      match h.bumpAlloc STATIC_PATH_MAX with
      | none => []
      | some h =>
          .alloc STATIC_PATH_MAX h.room ::
            match h.bumpAlloc STATIC_PATH_MAX with
            | none => []
            | some h =>
                match percentDecode url urlLen STATIC_PATH_MAX with
                | none => []
                | some decoded =>
                    match normalizePath allowDotfiles decoded STATIC_PATH_MAX with
                    | none => []
                    | some rel => h.servePathCalls useCache decoded rel redir now

/-- The calls of `static_begin_file`. -/
def staticBeginFileCalls (h : Handler) (path : List UInt8) (now : Nat) : List StaticCall :=
  if h.hc.req.method ≠ .get ∧ h.hc.req.method ≠ .head then []
  else if path = [] then []
  else
    statOpenedCalls path (h.openFile path) ++
      match statOpened (h.openFile path) now with
      | .error _ => []
      | .ok (_, st, h) => h.serveOpenedCalls path st

/-! ## The two halves -/

theorem servePath_eq (h : Handler) (useCache : Bool) (decoded rel redir : List UInt8)
    (now : Nat) : h.servePath useCache decoded rel redir now =
      match h.fetch useCache rel now with
      | .error h => h
      | .ok (fd, st, h) =>
          if st.kind = .directory then (h.close fd).serveIndex useCache decoded rel redir now
          else h.serveOpened useCache rel fd st now := by
  simp only [servePath, fetch]
  generalize (if useCache = true then h.serveCached rel now else (false, h)) = c
  obtain ⟨hit, c⟩ := c
  cases hit with
  | true => rfl
  | false => rfl

theorem serveIndex_eq (h : Handler) (useCache : Bool) (decoded rel redir : List UInt8)
    (now : Nat) : h.serveIndex useCache decoded rel redir now =
      if decoded.getLast? ≠ some SLASH then h.armDirRedirect redir now
      else if STATIC_PATH_MAX ≤ rel.length + 11 then
        h.armKeepable RESPONSE_404_CLOSE RESPONSE_404_KEEP 404 now
      else
        match h.fetch useCache (rel ++ cstr "/index.html") now with
        | .error h => h
        | .ok (fd, st, h) => h.serveOpened useCache (rel ++ cstr "/index.html") fd st now := by
  simp only [serveIndex, fetch]
  generalize (if useCache = true then h.serveCached (rel ++ cstr "/index.html") now
    else (false, h)) = c
  obtain ⟨hit, c⟩ := c
  cases hit with
  | true => rfl
  | false => rfl

/-! ## What a lookup and an open can do -/

/-- The exits of `serve_cached` on the table `file_cache_init` leaves. -/
inductive Lookup (h : Handler) (rel : List UInt8) (now : Nat) :
    List StaticCall → Bool × Handler → Prop
  | absent (hfind : (fileCacheFind h.cache rel).2 = none) :
      Lookup h rel now [] (false, { h with cache := h.cache.init })
  | dropped {i : Fin FILE_CACHE_SLOTS} {e : CachedFile} {k : Handler}
      (hfind : (fileCacheFind h.cache rel).2 = some (i, e))
      (hcheck : { h with cache := h.cache.init }.fileCacheRecheck i e now = (none, k)) :
      Lookup h rel now ({ h with cache := h.cache.init }.fileCacheRecheckCalls e now) (false, k)
  | hit {i : Fin FILE_CACHE_SLOTS} {e e' : CachedFile} {k : Handler}
      (hfind : (fileCacheFind h.cache rel).2 = some (i, e))
      (hcheck : { h with cache := h.cache.init }.fileCacheRecheck i e now = (some e', k)) :
      Lookup h rel now ({ h with cache := h.cache.init }.fileCacheRecheckCalls e now ++
          k.armRegularCalls rel e'.size e'.mime)
        (true, { k with cache := fileCacheHold k.cache i }.armRegular e'.fd e'.size e'.mime false now)

theorem serveCached_lookup (h : Handler) (rel : List UInt8) (now : Nat) :
    Lookup h rel now (h.serveCachedCalls rel now) (h.serveCached rel now) := by
  simp only [serveCached, serveCachedCalls]
  cases hfind : (fileCacheFind h.cache rel).2 with
  | none =>
      dsimp only
      rw [fileCacheFind_cache]
      exact .absent hfind
  | some p =>
      obtain ⟨i, e⟩ := p
      dsimp only
      rw [fileCacheFind_cache]
      obtain ⟨r, hr⟩ : ∃ r, r = { h with cache := h.cache.init }.fileCacheRecheck i e now := ⟨_, rfl⟩
      obtain ⟨o, k⟩ := r
      rw [← hr]
      cases o with
      | none =>
          rw [List.append_nil]
          exact .dropped hfind hr.symm
      | some e' => exact .hit hfind hr.symm

/-- The table is not asked, or it has no answer. -/
inductive Missed (h : Handler) (useCache : Bool) (rel : List UInt8) (now : Nat) :
    List StaticCall → Handler → Prop
  | unasked (hno : useCache = false) : Missed h useCache rel now [] h
  | miss {calls : List StaticCall} {k : Handler} (hyes : useCache = true)
      (hlookup : Lookup h rel now calls (false, k)) : Missed h useCache rel now calls k

/-- The exits of `fetch`. -/
inductive Fetched (h : Handler) (useCache : Bool) (rel : List UInt8) (now : Nat) :
    List StaticCall → Except Handler (Nat × Stat × Handler) → Prop
  | hit {calls : List StaticCall} {h' : Handler} (hyes : useCache = true)
      (hlookup : Lookup h rel now calls (true, h')) :
      Fetched h useCache rel now calls (.error h')
  | refused {calls : List StaticCall} {k h' : Handler} {r : OpenResult}
      (hmissed : Missed h useCache rel now calls k) (hopen : k.openUnder rel = (r, h'))
      (hfd : r.fd = none) :
      Fetched h useCache rel now (calls ++ [.openFile rel r]) (.error (h'.armOpenError r now))
  | blind {calls : List StaticCall} {k h' : Handler} {fd : Nat}
      (hmissed : Missed h useCache rel now calls k) (hopen : k.openUnder rel = (.opened fd, h'))
      (hstat : h'.fstat.1 = none) :
      Fetched h useCache rel now (calls ++ [.openFile rel (.opened fd), .fstat rel none])
        (.error ((h'.fstat.2.close fd).armClose RESPONSE_500 500 now))
  | opened {calls : List StaticCall} {k h' : Handler} {fd : Nat} {st : Stat}
      (hmissed : Missed h useCache rel now calls k) (hopen : k.openUnder rel = (.opened fd, h'))
      (hstat : h'.fstat.1 = some st) :
      Fetched h useCache rel now (calls ++ [.openFile rel (.opened fd), .fstat rel (some st)])
        (.ok (fd, st, h'.fstat.2))

/-- After a miss the file is opened. -/
theorem Missed.fetched {h k : Handler} {useCache : Bool} {rel : List UInt8} {now : Nat}
    {calls : List StaticCall} (hmissed : Missed h useCache rel now calls k) :
    Fetched h useCache rel now (calls ++ statOpenedCalls rel (k.openUnder rel))
      (statOpened (k.openUnder rel) now) := by
  obtain ⟨o, ho⟩ : ∃ o, o = k.openUnder rel := ⟨_, rfl⟩
  obtain ⟨r, h'⟩ := o
  rw [← ho]
  cases r with
  | opened fd =>
      cases hstat : h'.fstat.1 with
      | none =>
          simp only [statOpened, statOpenedCalls, hstat]
          exact .blind hmissed ho.symm hstat
      | some st =>
          simp only [statOpened, statOpenedCalls, hstat]
          exact .opened hmissed ho.symm hstat
  | again | notFound | forbidden | failed => exact .refused hmissed ho.symm rfl

theorem fetch_fetched (h : Handler) (useCache : Bool) (rel : List UInt8) (now : Nat) :
    Fetched h useCache rel now (h.fetchCalls useCache rel now) (h.fetch useCache rel now) := by
  cases useCache with
  | false => exact (Missed.unasked rfl).fetched
  | true =>
      have hlookup := serveCached_lookup h rel now
      simp only [fetch, fetchCalls, if_true]
      obtain ⟨c, hc⟩ : ∃ c, c = h.serveCached rel now := ⟨_, rfl⟩
      obtain ⟨hit, k⟩ := c
      rw [← hc] at hlookup ⊢
      cases hit with
      | true =>
          rw [if_pos rfl, List.append_nil]
          exact .hit rfl hlookup
      | false => exact (Missed.miss rfl hlookup).fetched

/-- What a miss changes. -/
theorem Missed.aside {h k : Handler} {useCache : Bool} {rel : List UInt8} {now : Nat}
    {calls : List StaticCall} (hmissed : Missed h useCache rel now calls k) : Aside h k := by
  cases hmissed with
  | unasked => exact .refl h
  | miss hyes hlookup =>
      cases hlookup with
      | absent => exact ⟨rfl, rfl, rfl⟩
      | @dropped i e _ hfind hcheck =>
          have haside := fileCacheRecheck_aside { h with cache := h.cache.init } i e now
          rw [hcheck] at haside
          exact ⟨haside.hc, haside.arena, haside.traffic⟩

theorem openUnder_eq_aside {h h' : Handler} {r : OpenResult} {rel : List UInt8}
    (hopen : h.openUnder rel = (r, h')) : Aside h h' := by
  have haside := openUnder_aside h rel
  rwa [hopen] at haside

end Handler

end TinyServer.Static
