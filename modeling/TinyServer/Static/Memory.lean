import TinyServer.Static.Calls

/-!
# The memory of a static response

The two path buffers leave 4096 bytes of the arena. The head of a file always fits there
(`fetchCalls_fit`, `serveOpenedCalls_fit`); the head of a redirect to a directory fits when
the path and the query are short enough (`armDirRedirectCalls_fit`). So memory runs short
in the redirect only (`staticServeCalls_fit`).
-/

set_option autoImplicit false

namespace TinyServer.Static

open TinyServer.Http TinyServer.Net

/-- What the calls took from the arena. -/
def spent (calls : List StaticCall) : Nat := (calls.map StaticCall.spent).sum

@[simp] theorem spent_nil : spent [] = 0 := rfl

@[simp] theorem spent_cons (c : StaticCall) (calls : List StaticCall) :
    spent (c :: calls) = c.spent + spent calls := by simp [spent]

@[simp] theorem spent_append (a b : List StaticCall) : spent (a ++ b) = spent a + spent b := by
  simp [spent]

/-- All the calls fit. -/
def AllFit (calls : List StaticCall) : Prop := ∀ c ∈ calls, c.Fits

theorem allFit_nil : AllFit [] := nofun

theorem allFit_cons {c : StaticCall} {calls : List StaticCall} :
    AllFit (c :: calls) ↔ c.Fits ∧ AllFit calls := List.forall_mem_cons

theorem allFit_append {a b : List StaticCall} : AllFit (a ++ b) ↔ AllFit a ∧ AllFit b := by
  simp only [AllFit, List.mem_append]
  exact ⟨fun hall => ⟨fun c hc => hall c (.inl hc), fun c hc => hall c (.inr hc)⟩,
    fun hall c hc => hc.elim (hall.1 c) (hall.2 c)⟩

namespace Handler

section Memory

variable (h : Handler)

/-! ## What the calls take -/

theorem dropFile_arena : h.dropFile.arena = h.arena := by
  simp only [dropFile]
  split
  · rfl
  · exact releaseFile_arena h

theorem armFixed_arena (closeResp : List UInt8) (keepResp : Option (List UInt8)) (allowKeep : Bool)
    (status now : Nat) : (h.armFixed closeResp keepResp allowKeep status now).arena = h.arena :=
  dropFile_arena _

theorem armClose_arena (resp : List UInt8) (status now : Nat) :
    (h.armClose resp status now).arena = h.arena := armFixed_arena ..

theorem armKeepable_arena (closeResp keepResp : List UInt8) (status now : Nat) :
    (h.armKeepable closeResp keepResp status now).arena = h.arena := armFixed_arena ..

theorem armOpenError_arena (r : OpenResult) (now : Nat) : (h.armOpenError r now).arena = h.arena := by
  cases r with
  | notFound => exact armKeepable_arena ..
  | forbidden => exact armKeepable_arena ..
  | opened | again | failed => exact armClose_arena ..

/-- The connection with a redirect armed. -/
def armedRedirect (path : List UInt8) (now : Nat) : HttpConn :=
  { h.hc with
    keep := httpShouldKeepalive h.hc.req
    fixed := redirectHeader path h.query (httpShouldKeepalive h.hc.req)
    fixedOff := 0
    phase := .writeFixed
    deadlineMs := now + h.hc.sendTimeoutMs
    statusCode := 301 }

/-- The room that `arm_dir_redirect` asks for is enough for its text. -/
theorem redirectHeader_lt (path : List UInt8) (keep : Bool) :
    (redirectHeader path h.query keep).length < h.redirectNeed path := by
  have hpath : (formatSlice path).length ≤ path.length := (List.takeWhile_prefix _).length_le
  have hquery : (formatSlice h.query).length ≤ h.query.length := (List.takeWhile_prefix _).length_le
  have hkeep : (connectionText keep).length ≤ 10 := by
    cases keep with
    | true => decide
    | false => decide
  have hfirst : (cstr "HTTP/1.1 301 Moved Permanently\r\nLocation: ").length = 42 := by decide
  have hconn : (cstr "\r\nContent-Length: 0\r\nConnection: ").length = 33 := by decide
  have hend : (cstr "\r\n\r\n").length = 4 := by decide
  have hslash : (cstr "/").length = 1 := by decide
  have hmark : (cstr "?").length = 1 := by decide
  simp only [redirectHeader, redirectNeed, List.length_append, hfirst, hconn, hend, hslash]
  split
  · simp only [List.length_nil]
    omega
  · simp only [List.length_append, hmark]
    omega

theorem bumpAlloc_eq (size : Nat) : h.bumpAlloc size =
    if h.room < size then none else some { h with arena := h.arena + size } := rfl

/-- `arm_dir_redirect` fails for lack of memory only. -/
theorem armDirRedirect_eq (path : List UInt8) (now : Nat) : h.armDirRedirect path now =
    if h.room < h.redirectNeed path then h.armClose RESPONSE_500 500 now
    else { h with
      arena := h.arena + h.redirectNeed path
      hc := h.armedRedirect path now }.dropFile := by
  have hshort := Nat.not_le.2 (h.redirectHeader_lt path (httpShouldKeepalive h.hc.req))
  unfold Handler.armDirRedirect
  extract_lets query need
  by_cases hroom : h.room < h.redirectNeed path
  · have halloc : h.bumpAlloc need = none := if_pos hroom
    rw [halloc, if_pos hroom]
  · have halloc : h.bumpAlloc need = some { h with arena := h.arena + need } := if_neg hroom
    rw [halloc, if_neg hroom]
    dsimp only
    erw [if_neg hshort]
    rfl

theorem armDirRedirect_arena (path : List UInt8) (now : Nat) :
    (h.armDirRedirect path now).arena = h.arena + spent (h.armDirRedirectCalls path) := by
  rw [armDirRedirect_eq]
  by_cases hroom : h.room < h.redirectNeed path
  · simp only [armDirRedirectCalls, if_pos hroom, armClose_arena, spent_cons, StaticCall.spent,
      if_neg (Nat.not_le.2 hroom), spent_nil, Nat.add_zero]
  · simp only [armDirRedirectCalls, if_neg hroom, dropFile_arena, spent_cons, StaticCall.spent,
      if_pos (Nat.not_lt.1 hroom), spent_nil, Nat.add_zero]

theorem armRegular_arena (path : List UInt8) (fd : Nat) (size : Int64) (mime : List UInt8)
    (owned : Bool) (now : Nat) : (h.armRegular fd size mime owned now).arena
      = h.arena + spent (h.armRegularCalls path size mime) := by
  have hclose : ∀ k : Handler, (if owned then k.close fd else k).arena = k.arena := by
    intro k
    cases owned with
    | true => rfl
    | false => rfl
  simp only [armRegular, armRegularCalls, bumpAlloc_eq]
  by_cases hroom : h.room < STATIC_HDR_SIZE
  · simp only [if_pos hroom, armClose_arena, hclose, spent_cons, StaticCall.spent,
      if_neg (Nat.not_le.2 hroom), spent_nil, Nat.add_zero]
  · simp only [if_neg hroom, spent_cons, StaticCall.spent, if_pos (Nat.not_lt.1 hroom)]
    by_cases hlong : STATIC_HDR_SIZE
        ≤ (okHeader size.toInt mime (httpShouldKeepalive h.hc.req)).length
    · simp only [if_pos hlong, armClose_arena, hclose, spent_nil, Nat.add_zero]
    · simp only [if_neg hlong, spent_cons, StaticCall.spent, spent_nil, Nat.add_zero]
      rfl

theorem fileCacheRecheckCalls_spent (e : CachedFile) (now : Nat) :
    spent (h.fileCacheRecheckCalls e now) = 0 := by
  unfold fileCacheRecheckCalls
  split
  · rfl
  · dsimp only
    split
    · rfl
    · split
      · rfl
      · split
        · rfl
        · rfl

variable {h}

theorem Lookup.arena {rel : List UInt8} {now : Nat} {calls : List StaticCall} {r : Bool × Handler}
    (hlookup : Lookup h rel now calls r) : r.2.arena = h.arena + spent calls := by
  cases hlookup with
  | absent => rfl
  | @dropped i e k hfind hcheck =>
      have haside := fileCacheRecheck_aside { h with cache := h.cache.init } i e now
      rw [hcheck] at haside
      rw [fileCacheRecheckCalls_spent]
      exact haside.arena
  | @hit i e e' k hfind hcheck =>
      have haside := fileCacheRecheck_aside { h with cache := h.cache.init } i e now
      rw [hcheck] at haside
      rw [spent_append, fileCacheRecheckCalls_spent, Nat.zero_add]
      refine (armRegular_arena { k with cache := fileCacheHold k.cache i } rel e'.fd e'.size e'.mime
        false now).trans ?_
      exact congrArg (· + _) haside.arena

theorem Missed.spent {useCache : Bool} {rel : List UInt8} {now : Nat} {calls : List StaticCall}
    {k : Handler} (hmissed : Missed h useCache rel now calls k) : spent calls = 0 := by
  cases hmissed with
  | unasked => rfl
  | miss hyes hlookup =>
      cases hlookup with
      | absent => rfl
      | dropped => exact fileCacheRecheckCalls_spent _ _ now

/-- An answer is armed with what the calls left; an open descriptor takes nothing. -/
theorem Fetched.arena {useCache : Bool} {rel : List UInt8} {now : Nat} {calls : List StaticCall}
    {r : Except Handler (Nat × Stat × Handler)} (hfetched : Fetched h useCache rel now calls r) :
    (∀ h', r = .error h' → h'.arena = h.arena + TinyServer.Static.spent calls) ∧
      ∀ fd st h', r = .ok (fd, st, h') → Aside h h' ∧ TinyServer.Static.spent calls = 0 := by
  cases hfetched with
  | hit hyes hlookup =>
      refine ⟨fun h' he => ?_, fun _ _ _ he => by injection he⟩
      rw [← Except.error.inj he]
      exact hlookup.arena
  | refused hmissed hopen hfd =>
      have haside := hmissed.aside.trans (openUnder_eq_aside hopen)
      refine ⟨fun h' he => ?_, fun _ _ _ he => by injection he⟩
      simp only [← Except.error.inj he, armOpenError_arena, spent_append, hmissed.spent, spent_cons,
        StaticCall.spent, spent_nil, haside.arena, Nat.add_zero]
  | blind hmissed hopen hstat =>
      have haside := hmissed.aside.trans (openUnder_eq_aside hopen)
      refine ⟨fun h' he => ?_, fun _ _ _ he => by injection he⟩
      simp only [← Except.error.inj he, armClose_arena, spent_append, hmissed.spent, spent_cons,
        StaticCall.spent, spent_nil, Nat.add_zero]
      exact haside.arena
  | opened hmissed hopen hstat =>
      have haside := hmissed.aside.trans (openUnder_eq_aside hopen)
      refine ⟨fun _ he => (by injection he), fun fd st h' he => ?_⟩
      injection he with he
      obtain ⟨-, -, rfl⟩ : _ ∧ _ ∧ _ = h' := by simpa only [Prod.mk.injEq] using he
      refine ⟨haside.trans ⟨rfl, rfl, rfl⟩, ?_⟩
      simp only [spent_append, hmissed.spent, spent_cons, StaticCall.spent, spent_nil]

variable (h)

theorem serveOpened_arena (useCache : Bool) (rel : List UInt8) (fd : Nat) (st : Stat) (now : Nat) :
    (h.serveOpened useCache rel fd st now).arena = h.arena + spent (h.serveOpenedCalls rel st) := by
  unfold serveOpened serveOpenedCalls
  split
  · exact armKeepable_arena ..
  · extract_lets mime s
    split
    · split
      · exact armRegular_arena { h with cache := _ } rel fd st.size _ false now
      · exact armRegular_arena { h with cache := _ } rel fd st.size _ true now
    · exact armRegular_arena h rel fd st.size _ true now

theorem serveIndex_arena (useCache : Bool) (decoded rel redir : List UInt8) (now : Nat) :
    (h.serveIndex useCache decoded rel redir now).arena
      = h.arena + spent (h.serveIndexCalls useCache decoded rel redir now) := by
  rw [serveIndex_eq, serveIndexCalls]
  split
  · exact armDirRedirect_arena ..
  · split
    · exact armKeepable_arena ..
    · have hfetch := (h.fetch_fetched useCache (rel ++ cstr "/index.html") now).arena
      simp only [spent_append]
      cases hr : h.fetch useCache (rel ++ cstr "/index.html") now with
      | error h' =>
          exact hfetch.1 h' hr
      | ok r =>
          obtain ⟨fd, st, h'⟩ := r
          obtain ⟨haside, hzero⟩ := hfetch.2 fd st h' hr
          dsimp only
          rw [serveOpened_arena, haside.arena, hzero, Nat.zero_add]

theorem servePath_arena (useCache : Bool) (decoded rel redir : List UInt8) (now : Nat) :
    (h.servePath useCache decoded rel redir now).arena
      = h.arena + spent (h.servePathCalls useCache decoded rel redir now) := by
  have hfetch := (h.fetch_fetched useCache rel now).arena
  rw [servePath_eq, servePathCalls, spent_append]
  cases hr : h.fetch useCache rel now with
  | error h' =>
      exact hfetch.1 h' hr
  | ok r =>
      obtain ⟨fd, st, h'⟩ := r
      obtain ⟨haside, hzero⟩ := hfetch.2 fd st h' hr
      dsimp only
      rw [hzero, Nat.zero_add, ← haside.arena]
      split
      · exact serveIndex_arena (h'.close fd) useCache decoded rel redir now
      · exact serveOpened_arena h' useCache rel fd st now

/-- What the listed calls took is what is gone from the arena. -/
theorem staticServe_arena (allowDotfiles : Bool) (dirFd : Option Nat) (useCache : Bool)
    (url : List UInt8) (urlLen : UInt16) (redir : List UInt8) (now : Nat) :
    (staticServe allowDotfiles h dirFd useCache url urlLen redir now).arena
      = h.arena + spent (staticServeCalls allowDotfiles h dirFd useCache url urlLen redir now) := by
  have hspent : ∀ k : Handler, ∀ rest, spent (.alloc STATIC_PATH_MAX k.room :: rest)
      = (if STATIC_PATH_MAX ≤ k.room then STATIC_PATH_MAX else 0) + spent rest := fun _ _ => rfl
  unfold staticServe staticServeCalls
  split
  · exact armKeepable_arena ..
  split
  · exact armClose_arena ..
  rw [hspent, bumpAlloc_eq]
  by_cases h₁ : h.room < STATIC_PATH_MAX
  · rw [if_pos h₁, if_neg (Nat.not_le.2 h₁)]
    exact armClose_arena ..
  rw [if_neg h₁, if_pos (Nat.not_lt.1 h₁)]
  obtain ⟨k, hk⟩ : ∃ k : Handler, k = { h with arena := h.arena + STATIC_PATH_MAX } := ⟨_, rfl⟩
  have harena : k.arena = h.arena + STATIC_PATH_MAX := by rw [hk]
  rw [← hk, ← Nat.add_assoc, ← harena]
  dsimp only
  rw [hspent, bumpAlloc_eq]
  by_cases h₂ : k.room < STATIC_PATH_MAX
  · rw [if_pos h₂, if_neg (Nat.not_le.2 h₂)]
    exact armClose_arena ..
  rw [if_neg h₂, if_pos (Nat.not_lt.1 h₂), ← Nat.add_assoc]
  dsimp only
  cases percentDecode url urlLen STATIC_PATH_MAX with
  | none => exact armClose_arena ..
  | some decoded =>
      cases hnorm : normalizePath allowDotfiles decoded STATIC_PATH_MAX with
      | none =>
          simp only [hnorm]
          exact armKeepable_arena ..
      | some rel =>
          simp only [hnorm]
          exact servePath_arena { k with arena := k.arena + STATIC_PATH_MAX } useCache decoded rel
            redir now

/-! ## What fits -/

/-- A redirect fits where its room is left. -/
theorem armDirRedirectCalls_fit (path : List UInt8) :
    AllFit (h.armDirRedirectCalls path) ↔ h.redirectNeed path ≤ h.room := by
  unfold armDirRedirectCalls
  extract_lets need
  rw [allFit_cons]
  refine ⟨fun hall => hall.1, fun hroom => ⟨hroom, ?_⟩⟩
  rw [if_neg (Nat.not_lt.2 hroom), allFit_cons]
  exact ⟨h.redirectHeader_lt path _, allFit_nil⟩

/-- The head of a file fits. -/
theorem armRegularCalls_fit (path : List UInt8) (size : Int64) {mime : List UInt8}
    (hroom : STATIC_HDR_SIZE ≤ h.room) (hmime : mime.length ≤ 64) :
    AllFit (h.armRegularCalls path size mime) := by
  have hlt := okHeader_lt size (httpShouldKeepalive h.hc.req) hmime
  unfold armRegularCalls
  rw [allFit_cons, if_neg (Nat.not_lt.2 hroom), allFit_cons, if_neg (Nat.not_le.2 hlt), allFit_cons]
  exact ⟨hroom, hlt, trivial, allFit_nil⟩

theorem fileCacheRecheckCalls_fit (e : CachedFile) (now : Nat) :
    AllFit (h.fileCacheRecheckCalls e now) := by
  have hstat : ∀ path result, AllFit [StaticCall.fstatat path result] := fun _ _ =>
    allFit_cons.2 ⟨trivial, allFit_nil⟩
  unfold fileCacheRecheckCalls
  split
  · exact allFit_nil
  · dsimp only
    split
    · exact hstat _ _
    · split
      · exact hstat _ _
      · split
        · exact hstat _ _
        · exact allFit_cons.2 ⟨trivial, allFit_cons.2 ⟨trivial, allFit_nil⟩⟩

variable {h}

theorem Lookup.fit {rel : List UInt8} {now : Nat} {calls : List StaticCall} {r : Bool × Handler}
    (hlookup : Lookup h rel now calls r) (hroom : STATIC_HDR_SIZE ≤ h.room) (hok : h.cache.Ok) :
    AllFit calls := by
  cases hlookup with
  | absent => exact allFit_nil
  | dropped => exact fileCacheRecheckCalls_fit _ _ now
  | @hit i e e' k hfind hcheck =>
      have hi := fileCacheFind_entry hfind
      rw [fileCacheFind_cache] at hi
      obtain ⟨hsteps, hentry⟩ := fileCacheRecheck_steps (h := { h with cache := h.cache.init }) now
        hok.init hi
      have haside := fileCacheRecheck_aside { h with cache := h.cache.init } i e now
      rw [hcheck] at hsteps hentry haside
      have hmime := ((hsteps hok.init).2.1.good i e' (hentry e' rfl)).mime
      refine allFit_append.2 ⟨fileCacheRecheckCalls_fit _ _ now, armRegularCalls_fit k _ _ ?_ hmime.1⟩
      have harena : k.arena = h.arena := haside.arena
      simp only [room, harena]
      exact hroom

theorem Missed.fit {useCache : Bool} {rel : List UInt8} {now : Nat} {calls : List StaticCall}
    {k : Handler} (hmissed : Missed h useCache rel now calls k) (hroom : STATIC_HDR_SIZE ≤ h.room)
    (hok : h.cache.Ok) : AllFit calls := by
  cases hmissed with
  | unasked => exact allFit_nil
  | miss hyes hlookup => exact hlookup.fit hroom hok

theorem Fetched.fit {useCache : Bool} {rel : List UInt8} {now : Nat} {calls : List StaticCall}
    {r : Except Handler (Nat × Stat × Handler)} (hfetched : Fetched h useCache rel now calls r)
    (hroom : STATIC_HDR_SIZE ≤ h.room) (hok : h.cache.Ok) : AllFit calls := by
  cases hfetched with
  | hit hyes hlookup => exact hlookup.fit hroom hok
  | refused hmissed =>
      exact allFit_append.2 ⟨hmissed.fit hroom hok, allFit_cons.2 ⟨trivial, allFit_nil⟩⟩
  | blind hmissed =>
      exact allFit_append.2 ⟨hmissed.fit hroom hok,
        allFit_cons.2 ⟨trivial, allFit_cons.2 ⟨trivial, allFit_nil⟩⟩⟩
  | opened hmissed =>
      exact allFit_append.2 ⟨hmissed.fit hroom hok,
        allFit_cons.2 ⟨trivial, allFit_cons.2 ⟨trivial, allFit_nil⟩⟩⟩

theorem serveOpenedCalls_fit (rel : List UInt8) (st : Stat) (hroom : STATIC_HDR_SIZE ≤ h.room) :
    AllFit (h.serveOpenedCalls rel st) := by
  unfold serveOpenedCalls
  split
  · exact allFit_nil
  · exact armRegularCalls_fit h _ _ hroom (mimeFromPath_good rel).1

/-! ## The whole response -/

theorem Missed.cacheOk {useCache : Bool} {rel : List UInt8} {now : Nat} {calls : List StaticCall}
    {k : Handler} (hmissed : Missed h useCache rel now calls k) (hok : h.cache.Ok) : k.cache.Ok := by
  cases hmissed with
  | unasked => exact hok
  | miss hyes hlookup =>
      cases hlookup with
      | absent => exact hok.init
      | @dropped i e _ hfind hcheck =>
          have hi := fileCacheFind_entry hfind
          rw [fileCacheFind_cache] at hi
          obtain ⟨hsteps, -⟩ := fileCacheRecheck_steps (h := { h with cache := h.cache.init }) now
            hok.init hi
          rw [hcheck] at hsteps
          exact (hsteps hok.init).2.1

theorem openUnder_eq_cache {h' : Handler} {r : OpenResult} {rel : List UInt8}
    (hopen : h.openUnder rel = (r, h')) : h'.cache = h.cache := by
  have hcache := openLoop_cache rel OPENAT2_EAGAIN_RETRIES h
  rw [openUnder] at hopen
  rwa [hopen] at hcache

theorem Fetched.cacheOk {useCache : Bool} {rel : List UInt8} {now fd : Nat} {st : Stat} {h' : Handler}
    {calls : List StaticCall} (hfetched : Fetched h useCache rel now calls (.ok (fd, st, h')))
    (hok : h.cache.Ok) : h'.cache.Ok := by
  cases hfetched with
  | @opened _ k o _ _ hmissed hopen hstat =>
      show o.cache.Ok
      rw [openUnder_eq_cache hopen]
      exact hmissed.cacheOk hok

/-- The path names a directory, and does not end with a slash. -/
structure AsksDirectory (allowDotfiles : Bool) (h : Handler) (dirFd : Option Nat) (useCache : Bool)
    (url : List UInt8) (urlLen : UInt16) (now : Nat) : Prop where
  method : h.hc.req.method = .get ∨ h.hc.req.method = .head
  opened : dirFd ≠ none
  directory : ∃ decoded rel fd st h', percentDecode url urlLen STATIC_PATH_MAX = some decoded ∧
    normalizePath allowDotfiles decoded STATIC_PATH_MAX = some rel ∧
    { h with arena := 2 * STATIC_PATH_MAX }.fetch useCache rel now = .ok (fd, st, h') ∧
    st.kind = .directory ∧ decoded.getLast? ≠ some SLASH

theorem serveIndexCalls_fit (useCache : Bool) {decoded : List UInt8} (rel redir : List UInt8)
    (now : Nat) (hlast : decoded.getLast? = some SLASH) (hroom : STATIC_HDR_SIZE ≤ h.room)
    (hok : h.cache.Ok) : AllFit (h.serveIndexCalls useCache decoded rel redir now) := by
  unfold serveIndexCalls
  rw [if_neg (not_not.2 hlast)]
  split
  · exact allFit_nil
  · extract_lets rel'
    have hfetched := h.fetch_fetched useCache rel' now
    refine allFit_append.2 ⟨hfetched.fit hroom hok, ?_⟩
    cases hr : h.fetch useCache rel' now with
    | error h' => exact allFit_nil
    | ok r =>
        obtain ⟨fd, st, h'⟩ := r
        obtain ⟨haside, -⟩ := hfetched.arena.2 fd st h' hr
        refine serveOpenedCalls_fit rel' st ?_
        rw [room, haside.arena]
        exact hroom

theorem bumpTwice (harena : h.arena = 0) :
    h.bumpAlloc STATIC_PATH_MAX = some { h with arena := STATIC_PATH_MAX } ∧
      { h with arena := STATIC_PATH_MAX }.bumpAlloc STATIC_PATH_MAX
        = some { h with arena := 2 * STATIC_PATH_MAX } := by
  have h₁ : ¬ h.room < STATIC_PATH_MAX := by
    rw [room, harena]
    decide
  have h₂ : ¬ { h with arena := STATIC_PATH_MAX }.room < STATIC_PATH_MAX := by
    simp only [room]
    decide
  rw [bumpAlloc_eq, bumpAlloc_eq, if_neg h₁, if_neg h₂, harena, Nat.zero_add, Nat.two_mul]
  exact ⟨rfl, rfl⟩

/-- With an empty arena the two buffers are there. -/
theorem staticServeCalls_eq (allowDotfiles : Bool) (dirFd : Option Nat) (useCache : Bool)
    (url : List UInt8) (urlLen : UInt16) (redir : List UInt8) (now : Nat) (harena : h.arena = 0)
    (hmethod : h.hc.req.method = .get ∨ h.hc.req.method = .head) (hdir : dirFd ≠ none) :
    staticServeCalls allowDotfiles h dirFd useCache url urlLen redir now =
      .alloc STATIC_PATH_MAX TINY_BUMP_SIZE ::
        .alloc STATIC_PATH_MAX (TINY_BUMP_SIZE - STATIC_PATH_MAX) ::
          match percentDecode url urlLen STATIC_PATH_MAX with
          | none => []
          | some decoded =>
              match normalizePath allowDotfiles decoded STATIC_PATH_MAX with
              | none => []
              | some rel => { h with arena := 2 * STATIC_PATH_MAX }.servePathCalls useCache decoded
                  rel redir now := by
  have hno : ¬ (h.hc.req.method ≠ .get ∧ h.hc.req.method ≠ .head) := by
    rintro ⟨h₁, h₂⟩
    exact hmethod.elim h₁ h₂
  obtain ⟨h₁, h₂⟩ := bumpTwice (h := h) harena
  unfold staticServeCalls
  rw [if_neg hno, if_neg hdir, h₁]
  dsimp only
  rewrite [h₂]
  cases percentDecode url urlLen STATIC_PATH_MAX with
  | none => simp only [room, harena, Nat.sub_zero]
  | some decoded =>
      dsimp only
      cases normalizePath allowDotfiles decoded STATIC_PATH_MAX with
      | none => simp only [room, harena, Nat.sub_zero]
      | some rel => simp only [room, harena, Nat.sub_zero]

/-- `static_serve` after its buffers, with 4096 bytes left. -/
theorem servePathCalls_fit (useCache : Bool) (decoded rel redir : List UInt8) (now : Nat)
    (harena : h.arena = 2 * STATIC_PATH_MAX) (hok : h.cache.Ok) :
    AllFit (h.servePathCalls useCache decoded rel redir now) ↔
      ∀ fd st h', h.fetch useCache rel now = .ok (fd, st, h') → st.kind = .directory →
        decoded.getLast? ≠ some SLASH → h.redirectNeed redir ≤ 4096 := by
  have hroom : h.room = 4096 := by
    rw [room, harena]
    rfl
  have hhead : STATIC_HDR_SIZE ≤ h.room := by
    rw [hroom]
    decide
  have hfetched := h.fetch_fetched useCache rel now
  rw [servePathCalls, allFit_append]
  refine (and_iff_right (hfetched.fit hhead hok)).trans ?_
  cases hr : h.fetch useCache rel now with
  | error h' => exact ⟨fun _ _ _ _ he => (by injection he), fun _ => allFit_nil⟩
  | ok r =>
      obtain ⟨fd, st, h'⟩ := r
      obtain ⟨haside, -⟩ := hfetched.arena.2 fd st h' hr
      have hok' : h'.cache.Ok := by
        rw [hr] at hfetched
        exact hfetched.cacheOk hok
      have hroom' : h'.room = h.room := by rw [room, room, haside.arena]
      have hneed : h'.redirectNeed redir = h.redirectNeed redir := by
        have hquery : h'.query = h.query := by rw [query, query, haside.hc]
        rw [redirectNeed, redirectNeed, hquery]
      dsimp only
      by_cases hkind : st.kind = .directory
      · rw [if_pos hkind]
        by_cases hlast : decoded.getLast? = some SLASH
        · refine ⟨fun _ _ _ _ _ _ hne => absurd hlast hne, fun _ => ?_⟩
          exact serveIndexCalls_fit useCache rel redir now hlast (hroom'.symm ▸ hhead) hok'
        · have hfit := armDirRedirectCalls_fit (h'.close fd) redir
          have hfit : AllFit ((h'.close fd).armDirRedirectCalls redir) ↔
              h'.redirectNeed redir ≤ h'.room := hfit
          rw [serveIndexCalls, if_pos hlast, hfit, hneed, hroom', hroom]
          exact ⟨fun hle _ _ _ _ _ _ => hle, fun hall => hall fd st h' rfl hkind hlast⟩
      · rw [if_neg hkind]
        refine ⟨fun _ fd' st' k he hkind' => ?_, fun _ => ?_⟩
        · injection he with he
          obtain ⟨-, rfl, -⟩ : _ ∧ st = st' ∧ _ := by simpa only [Prod.mk.injEq] using he
          exact absurd hkind' hkind
        · exact serveOpenedCalls_fit rel st (hroom'.symm ▸ hhead)

/-- Memory runs short in a redirect with a long path and query, and nowhere else. -/
theorem staticServeCalls_fit (allowDotfiles : Bool) (dirFd : Option Nat) (useCache : Bool)
    (url : List UInt8) (urlLen : UInt16) (redir : List UInt8) (now : Nat) (harena : h.arena = 0)
    (hok : h.cache.Ok) :
    AllFit (staticServeCalls allowDotfiles h dirFd useCache url urlLen redir now) ↔
      ¬ (AsksDirectory allowDotfiles h dirFd useCache url urlLen now ∧
        4096 < h.redirectNeed redir) := by
  by_cases hmethod : h.hc.req.method = .get ∨ h.hc.req.method = .head
  swap
  · have hyes : h.hc.req.method ≠ .get ∧ h.hc.req.method ≠ .head := not_or.1 hmethod
    rw [staticServeCalls, if_pos hyes]
    exact ⟨fun _ hask => hmethod hask.1.method, fun _ => allFit_nil⟩
  by_cases hdir : dirFd = none
  · have hno : ¬ (h.hc.req.method ≠ .get ∧ h.hc.req.method ≠ .head) := by
      rintro ⟨h₁, h₂⟩
      exact hmethod.elim h₁ h₂
    rw [staticServeCalls, if_neg hno, if_pos hdir]
    exact ⟨fun _ hask => hask.1.opened hdir, fun _ => allFit_nil⟩
  have hbuffers : ∀ rest, AllFit (.alloc STATIC_PATH_MAX TINY_BUMP_SIZE ::
      .alloc STATIC_PATH_MAX (TINY_BUMP_SIZE - STATIC_PATH_MAX) :: rest) ↔ AllFit rest := by
    intro rest
    rw [allFit_cons, allFit_cons]
    exact ⟨fun hall => hall.2.2, fun hall => ⟨by decide, by decide, hall⟩⟩
  rw [staticServeCalls_eq allowDotfiles dirFd useCache url urlLen redir now harena hmethod hdir,
    hbuffers]
  cases hdecode : percentDecode url urlLen STATIC_PATH_MAX with
  | none =>
      refine ⟨fun _ hask => ?_, fun _ => allFit_nil⟩
      obtain ⟨_, _, _, _, _, hsome, -⟩ := hask.1.directory
      rw [hdecode] at hsome
      cases hsome
  | some decoded =>
      dsimp only
      cases hnorm : normalizePath allowDotfiles decoded STATIC_PATH_MAX with
      | none =>
          refine ⟨fun _ hask => ?_, fun _ => allFit_nil⟩
          obtain ⟨_, _, _, _, _, hsome, hsome', -⟩ := hask.1.directory
          rw [hdecode] at hsome
          rw [← Option.some.inj hsome, hnorm] at hsome'
          cases hsome'
      | some rel =>
          dsimp only
          have hask : ∀ P : Prop, (AsksDirectory allowDotfiles h dirFd useCache url urlLen now → P) ↔
              ∀ fd st h', { h with arena := 2 * STATIC_PATH_MAX }.fetch useCache rel now
                  = .ok (fd, st, h') → st.kind = .directory → decoded.getLast? ≠ some SLASH → P := by
            intro P
            constructor
            · intro hP fd st h' hfetch hkind hlast
              exact hP ⟨hmethod, hdir, decoded, rel, fd, st, h', hdecode, hnorm, hfetch, hkind, hlast⟩
            · rintro hP ⟨-, -, decoded', rel', fd, st, h', hd, hn, hfetch, hkind, hlast⟩
              rw [hdecode] at hd
              cases hd
              rw [hnorm] at hn
              cases hn
              exact hP fd st h' hfetch hkind hlast
          rw [not_and, hask, Nat.not_lt]
          exact servePathCalls_fit useCache decoded rel redir now rfl hok

theorem staticServe_eq (allowDotfiles : Bool) (dirFd : Option Nat) (useCache : Bool)
    (url : List UInt8) (urlLen : UInt16) (redir : List UInt8) (now : Nat) (harena : h.arena = 0)
    (hmethod : h.hc.req.method = .get ∨ h.hc.req.method = .head) (hdir : dirFd ≠ none) :
    staticServe allowDotfiles h dirFd useCache url urlLen redir now =
      let k := { h with arena := 2 * STATIC_PATH_MAX }
      match percentDecode url urlLen STATIC_PATH_MAX with
      | none => k.armClose RESPONSE_400 400 now
      | some decoded =>
          match normalizePath allowDotfiles decoded STATIC_PATH_MAX with
          | none => k.armKeepable RESPONSE_404_CLOSE RESPONSE_404_KEEP 404 now
          | some rel => k.servePath useCache decoded rel redir now := by
  have hno : ¬ (h.hc.req.method ≠ .get ∧ h.hc.req.method ≠ .head) := by
    rintro ⟨h₁, h₂⟩
    exact hmethod.elim h₁ h₂
  obtain ⟨h₁, h₂⟩ := bumpTwice (h := h) harena
  unfold staticServe
  rw [if_neg hno, if_neg hdir, h₁]
  dsimp only
  rewrite [h₂]
  cases percentDecode url urlLen STATIC_PATH_MAX with
  | none => rfl
  | some decoded => rfl

/-- Without the room, such a request is answered with 500. -/
theorem AsksDirectory.short {allowDotfiles : Bool} {dirFd : Option Nat} {useCache : Bool}
    {url : List UInt8} {urlLen : UInt16} {now : Nat} (harena : h.arena = 0)
    (hask : AsksDirectory allowDotfiles h dirFd useCache url urlLen now) {redir : List UInt8}
    (hlong : 4096 < h.redirectNeed redir) :
    (staticServe allowDotfiles h dirFd useCache url urlLen redir now).hc.statusCode = 500 := by
  obtain ⟨hmethod, hdir, decoded, rel, fd, st, h', hdecode, hnorm, hfetch, hkind, hlast⟩ := hask
  obtain ⟨haside, -⟩ := (fetch_fetched { h with arena := 2 * STATIC_PATH_MAX } useCache rel
    now).arena.2 fd st h' hfetch
  rw [staticServe_eq allowDotfiles dirFd useCache url urlLen redir now harena hmethod hdir]
  simp only [hdecode, hnorm]
  rw [servePath_eq, hfetch]
  dsimp only
  rw [if_pos hkind, serveIndex_eq, if_pos hlast, armDirRedirect_eq, if_pos, armClose_status]
  have hquery : (h'.close fd).query = h.query := by
    show h'.query = h.query
    rw [query, query, haside.hc]
  have hroom : (h'.close fd).room = 4096 := by
    have harena' : h'.arena = 2 * STATIC_PATH_MAX := haside.arena
    show h'.room = 4096
    rw [room, harena']
    rfl
  rw [hroom, redirectNeed, hquery]
  exact hlong

variable (h)

/-- One file alone always fits. -/
theorem staticBeginFileCalls_fit (path : List UInt8) (now : Nat) (harena : h.arena = 0) :
    AllFit (h.staticBeginFileCalls path now) := by
  unfold staticBeginFileCalls
  split
  · exact allFit_nil
  · split
    · exact allFit_nil
    · have hopened : ∀ o : OpenResult × Handler, AllFit (statOpenedCalls path o) := by
        rintro ⟨r, o⟩
        cases r with
        | opened fd => exact allFit_cons.2 ⟨trivial, allFit_cons.2 ⟨trivial, allFit_nil⟩⟩
        | again | notFound | forbidden | failed => exact allFit_cons.2 ⟨trivial, allFit_nil⟩
      refine allFit_append.2 ⟨hopened _, ?_⟩
      have haside := openFile_aside h path
      generalize h.openFile path = o at haside
      obtain ⟨r, o⟩ := o
      cases r with
      | opened fd =>
          cases hstat : o.fstat.1 with
          | none =>
              simp only [statOpened, hstat]
              exact allFit_nil
          | some st =>
              simp only [statOpened, hstat]
              refine serveOpenedCalls_fit path st ?_
              have harena' : o.fstat.2.arena = 0 := haside.arena.trans harena
              rw [room, harena']
              decide
      | again | notFound | forbidden | failed => exact allFit_nil

end Memory

end Handler

end TinyServer.Static
