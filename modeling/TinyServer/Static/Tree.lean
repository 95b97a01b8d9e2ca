import TinyServer.Static.Memory
import TinyServer.Static.UrlExact

/-!
# What a site answers from a tree of files

`Tree` is what a path of names leads to below a served directory, and `Tree.answer` is the
answer to a request, as a function of the tree alone: no table of open files, no
descriptors and no results of calls. `static_serve` gives this answer whenever its calls
tell the truth about the tree (`StaticCall.Honest`) and the table of open files was filled
from the same tree (`Tree.Agrees`, which every answer keeps).
-/

set_option autoImplicit false

namespace TinyServer.Static

open TinyServer.Http TinyServer.Net TinyServer.Lib

/-! ## Trees -/

/-- What a name leads to, with the contents of a file. -/
structure Node where
  stat : Stat
  bytes : List UInt8

/-- What is found under a path. A path through something that is no directory leads
nowhere. -/
inductive Found where
  | node (n : Node)
  | notFound
  | forbidden
  | failed

/-- What the paths of names below a directory lead to. -/
abbrev Tree := List (List UInt8) → Found

/-- The part of the tree below `d`. -/
def Tree.below (T : Tree) (d : List UInt8) : Tree := fun names => T (d :: names)

/-- What a relative path leads to. -/
def Tree.look (T : Tree) (rel : List UInt8) : Found := T (rel.splitOn SLASH)

/-- The contents of the file under `rel`. -/
def Tree.bytes (T : Tree) (rel : List UInt8) : Option (List UInt8) :=
  match T.look rel with
  | .node n => some n.bytes
  | _ => none

/-- The results of `open_under` on what was found. -/
def Found.Opens : Found → OpenResult → Prop
  | .node _, r => ∃ fd, r = .opened fd
  | .notFound, r => r = .notFound
  | .forbidden, r => r = .forbidden
  | .failed, r => r = .failed

instance Found.decidableOpens : ∀ (f : Found) (r : OpenResult), Decidable (f.Opens r)
  | .node _, .opened fd => isTrue ⟨fd, rfl⟩
  | .node _, .again | .node _, .notFound | .node _, .forbidden | .node _, .failed => isFalse nofun
  | .notFound, r => inferInstanceAs (Decidable (r = .notFound))
  | .forbidden, r => inferInstanceAs (Decidable (r = .forbidden))
  | .failed, r => inferInstanceAs (Decidable (r = .failed))

/-- The call tells the truth about the tree. -/
def StaticCall.Honest (T : Tree) : StaticCall → Prop
  | .openFile rel r => (T.look rel).Opens r
  | .fstat rel s => ∀ n, T.look rel = .node n → s = some n.stat
  | .fstatat rel s => ∀ n, T.look rel = .node n → s = some n.stat
  | _ => True

/-- What `fstat` and `fstatat` tell of what was found. -/
instance Found.decidableStat : ∀ (f : Found) (s : Option Stat),
    Decidable (∀ n, f = .node n → s = some n.stat)
  | .node n, s => decidable_of_iff (s = some n.stat)
      ⟨fun h _ he => (Found.node.inj he) ▸ h, fun h => h n rfl⟩
  | .notFound, _ | .forbidden, _ | .failed, _ => isTrue nofun

instance StaticCall.decidableHonest (T : Tree) : ∀ c : StaticCall, Decidable (c.Honest T)
  | .openFile rel r => (T.look rel).decidableOpens r
  | .fstat rel s | .fstatat rel s => (T.look rel).decidableStat s
  | .alloc .. | .format .. | .armed .. => isTrue trivial

/-! ## Answers -/

/-- The answer to a request: what is sent first, and the contents of the file that follows,
if there is one and the method asks for it. -/
structure Answer where
  status : Nat
  head : List UInt8
  keep : Bool
  file : Option (List UInt8)
  deriving DecidableEq, Repr

namespace Answer

/-- An answer with a fixed text that keeps the connection where the request allows it. -/
def keepable (req : HttpRequest) (closeResp keepResp : List UInt8) (status : Nat) : Answer :=
  if httpShouldKeepalive req then ⟨status, keepResp, true, none⟩
  else ⟨status, closeResp, false, none⟩

/-- A 404. -/
def notFound (req : HttpRequest) : Answer :=
  keepable req RESPONSE_404_CLOSE RESPONSE_404_KEEP 404

/-- A 403. -/
def forbidden (req : HttpRequest) : Answer :=
  keepable req RESPONSE_403_CLOSE RESPONSE_403_KEEP 403

/-- A 500. -/
def failed : Answer := ⟨500, RESPONSE_500, false, none⟩

/-- A 400. -/
def badRequest : Answer := ⟨400, RESPONSE_400, false, none⟩

/-- The redirect to `path` and a slash, where the arena has room for it. -/
def redirect (req : HttpRequest) (query path : List UInt8) : Answer :=
  if 4096 < 160 + path.length + 1 + (if query = [] then 0 else 1 + query.length) then failed
  else
    let keep := httpShouldKeepalive req
    ⟨301, redirectHeader path query keep, keep, none⟩

/-- A file. -/
def regular (req : HttpRequest) (rel : List UInt8) (n : Node) : Answer :=
  if n.stat.kind ≠ .regular ∨ n.stat.size < 0 then forbidden req
  else
    let keep := httpShouldKeepalive req
    ⟨200, okHeader n.stat.size.toInt (mimeFromPath rel) keep, keep, some n.bytes⟩

/-- Where a path leads nowhere. -/
def refusal (req : HttpRequest) : Found → Answer
  | .notFound => notFound req
  | .forbidden => forbidden req
  | _ => failed

end Answer

/-- The answer for the index file of the directory `rel`. -/
def Tree.answerIndex (T : Tree) (req : HttpRequest) (query decoded rel redir : List UInt8) :
    Answer :=
  if decoded.getLast? ≠ some SLASH then .redirect req query redir
  else if STATIC_PATH_MAX ≤ rel.length + 11 then .notFound req
  else
    match T.look (rel ++ cstr "/index.html") with
    | .node n => .regular req (rel ++ cstr "/index.html") n
    | r => .refusal req r

/-- The answer for the path `rel`. -/
def Tree.answerPath (T : Tree) (req : HttpRequest) (query decoded rel redir : List UInt8) :
    Answer :=
  match T.look rel with
  | .node n =>
      if n.stat.kind = .directory then T.answerIndex req query decoded rel redir
      else .regular req rel n
  | r => .refusal req r

/-- The answer for a path that decodes to `decoded`; redirects go to `redir`. -/
def Tree.answer (T : Tree) (allowDotfiles : Bool) (req : HttpRequest) (query redir : List UInt8) :
    Option (List UInt8) → Answer
  | none => .badRequest
  | some decoded =>
      match normalizePath allowDotfiles decoded STATIC_PATH_MAX with
      | none => .notFound req
      | some rel => T.answerPath req query decoded rel redir

/-! ## What a handler shows -/

/-- The path of the file that the calls armed. -/
def armedPath (calls : List StaticCall) : Option (List UInt8) :=
  calls.findSome? fun c => match c with
    | .armed path => some path
    | _ => none

@[simp] theorem armedPath_append (a b : List StaticCall) :
    armedPath (a ++ b) = (armedPath a).or (armedPath b) := List.findSome?_append

/-- The answer that a handler has armed, by the calls that armed it. -/
def Handler.shown (T : Tree) (calls : List StaticCall) (h : Handler) : Answer where
  status := h.hc.statusCode
  head := if h.hc.phase = .writeHdr then h.hc.outHdr else h.hc.fixed
  keep := h.hc.keep
  file := if h.hc.phase = .writeHdr then (armedPath calls).bind T.bytes else none

namespace Handler

section Arm

variable (h : Handler) (T : Tree) (calls : List StaticCall) (now : Nat)

/-- Calls that arm no file do not show. -/
theorem shown_skip {T : Tree} {k : Handler} {a b : List StaticCall} (harmed : armedPath a = none) :
    k.shown T (a ++ b) = k.shown T b := by
  simp only [shown, armedPath_append, harmed, Option.none_or]

/-- Where no file is, the answer is a refusal. -/
theorem match_refusal {f : Found} (hno : ∀ n, f ≠ .node n) (req : HttpRequest) (g : Node → Answer) :
    (match f with
      | .node n => g n
      | r => .refusal req r) = .refusal req f := by
  cases f with
  | node n => exact absurd rfl (hno n)
  | notFound => rfl
  | forbidden => rfl
  | failed => rfl

theorem shown_dropFile : h.dropFile.shown T calls = h.shown T calls := by
  obtain ⟨owned, hdrop⟩ := dropFile_hc h
  simp only [shown, hdrop]

theorem shown_armClose (resp : List UInt8) (status : Nat) :
    (h.armClose resp status now).shown T calls = ⟨status, resp, false, none⟩ :=
  shown_dropFile ..

theorem shown_armKeepable (closeResp keepResp : List UInt8) (status : Nat) :
    (h.armKeepable closeResp keepResp status now).shown T calls
      = .keepable h.hc.req closeResp keepResp status := by
  unfold armKeepable armFixed Answer.keepable
  rw [Bool.true_and]
  cases httpShouldKeepalive h.hc.req with
  | true => exact shown_dropFile ..
  | false => exact shown_dropFile ..

theorem shown_armOpenError {r : OpenResult} {f : Found} (hopen : f.Opens r) (hfd : r.fd = none) :
    (h.armOpenError r now).shown T calls = .refusal h.hc.req f := by
  cases f with
  | node n =>
      obtain ⟨fd, rfl⟩ := hopen
      cases hfd
  | notFound =>
      rw [show r = .notFound from hopen]
      exact shown_armKeepable ..
  | forbidden =>
      rw [show r = .forbidden from hopen]
      exact shown_armKeepable ..
  | failed =>
      rw [show r = .failed from hopen]
      exact shown_armClose ..

/-- A redirect, with 4096 bytes left. -/
theorem shown_armDirRedirect (path : List UInt8) (hroom : h.room = 4096) :
    (h.armDirRedirect path now).shown T calls = .redirect h.hc.req h.query path := by
  have hneed : h.redirectNeed path = 160 + path.length + 1 +
      (if h.query = [] then 0 else 1 + h.query.length) := rfl
  rw [armDirRedirect_eq, Answer.redirect, hroom, ← hneed]
  by_cases hlong : 4096 < h.redirectNeed path
  · rw [if_pos hlong, if_pos hlong]
    exact shown_armClose ..
  · rw [if_neg hlong, if_neg hlong]
    exact shown_dropFile ..

/-- A file. -/
theorem shown_armRegular {rel : List UInt8} {n : Node} (fd : Nat) (owned : Bool)
    (hroom : STATIC_HDR_SIZE ≤ h.room) (harmed : armedPath calls = some rel)
    (hn : T.look rel = .node n) (hkind : n.stat.kind = .regular) (hsize : ¬ n.stat.size < 0) :
    (h.armRegular fd n.stat.size (mimeFromPath rel) owned now).shown T calls
      = .regular h.hc.req rel n := by
  have hroom : h.arena + STATIC_HDR_SIZE ≤ TINY_BUMP_SIZE := by
    have hpos : 0 < STATIC_HDR_SIZE := by decide
    rw [room] at hroom
    omega
  rw [armRegular_fits h now fd n.stat.size owned hroom (mimeFromPath_good rel).1, Answer.regular,
    if_neg (by simp [hkind, hsize])]
  simp [shown, cork, armedFile, harmed, Tree.bytes, hn]

theorem armedPath_armRegularCalls (rel : List UInt8) (size : Int64)
    (hroom : STATIC_HDR_SIZE ≤ h.room) :
    armedPath (h.armRegularCalls rel size (mimeFromPath rel)) = some rel := by
  have hlt := okHeader_lt size (httpShouldKeepalive h.hc.req) (mimeFromPath_good rel).1
  simp only [armRegularCalls, if_neg (Nat.not_lt.2 hroom), if_neg (Nat.not_le.2 hlt)]
  rfl

variable {h now}

theorem dropFile_cache (hfile : h.hc.fileFd = none) : h.dropFile.cache = h.cache := by
  simp only [dropFile, hfile]

theorem armKeepable_cache (closeResp keepResp : List UInt8) (status : Nat)
    (hfile : h.hc.fileFd = none) : (h.armKeepable closeResp keepResp status now).cache = h.cache := by
  refine dropFile_cache ?_
  dsimp only
  split
  · exact hfile
  · exact hfile

theorem armClose_cache (resp : List UInt8) (status : Nat) (hfile : h.hc.fileFd = none) :
    (h.armClose resp status now).cache = h.cache :=
  dropFile_cache hfile

theorem armOpenError_cache (r : OpenResult) (now : Nat) (hfile : h.hc.fileFd = none) :
    (h.armOpenError r now).cache = h.cache := by
  cases r with
  | notFound => exact armKeepable_cache _ _ _ hfile
  | forbidden => exact armKeepable_cache _ _ _ hfile
  | opened | again | failed => exact armClose_cache _ _ hfile

theorem armDirRedirect_cache (path : List UInt8) (hfile : h.hc.fileFd = none) :
    (h.armDirRedirect path now).cache = h.cache := by
  rw [armDirRedirect_eq]
  split
  · exact armClose_cache _ _ hfile
  · exact dropFile_cache hfile

theorem armRegular_cache (rel : List UInt8) (fd : Nat) (size : Int64) (owned : Bool)
    (hroom : STATIC_HDR_SIZE ≤ h.room) :
    (h.armRegular fd size (mimeFromPath rel) owned now).cache = h.cache := by
  have hroom : h.arena + STATIC_HDR_SIZE ≤ TINY_BUMP_SIZE := by
    have hpos : 0 < STATIC_HDR_SIZE := by decide
    rw [room] at hroom
    omega
  rw [armRegular_fits h now fd size owned hroom (mimeFromPath_good rel).1]
  rfl

end Arm

end Handler

/-! ## The table of open files -/

/-- The entry was filled from the tree. -/
structure Tree.Holds (T : Tree) (e : CachedFile) : Prop where
  found : ∃ n, T.look e.path = .node n ∧ n.stat.kind = .regular ∧ ¬ n.stat.size < 0 ∧
    sameMeta e n.stat = true
  mime : e.mime = mimeFromPath e.path

/-- The table was filled from the tree. -/
def Tree.Agrees (T : Tree) (c : FileCache) : Prop := ∀ i e, c.entries i = .live e → T.Holds e

section Table

variable {T : Tree} {c : FileCache}

theorem Tree.Agrees.fresh (T : Tree) : T.Agrees .fresh := nofun

theorem Tree.Agrees.init (hagrees : T.Agrees c) : T.Agrees c.init := by
  unfold FileCache.init
  split
  · exact hagrees
  · exact nofun

theorem Tree.Agrees.setEntry (hagrees : T.Agrees c) (i : Fin FILE_CACHE_SLOTS) {e : CachedFile}
    (he : T.Holds e) : T.Agrees (c.setEntry i (.live e)) := by
  intro j f hj
  simp only [FileCache.setEntry, Function.update_apply] at hj
  split at hj
  · rw [← CacheSlot.live.inj hj]
    exact he
  · exact hagrees j f hj

theorem Tree.Holds.uses {e : CachedFile} (he : T.Holds e) (n : Nat) : T.Holds { e with uses := n } :=
  ⟨he.found, he.mime⟩

theorem Tree.Holds.checked {e : CachedFile} (he : T.Holds e) (n : Nat) :
    T.Holds { e with checkedMs := n } :=
  ⟨he.found, he.mime⟩

theorem Tree.Agrees.hold (hagrees : T.Agrees c) (i : Fin FILE_CACHE_SLOTS) :
    T.Agrees (fileCacheHold c i) := by
  unfold fileCacheHold
  split
  · rename_i e he
    split
    · exact hagrees.setEntry i ((hagrees i e he).uses _)
    · exact hagrees
  · exact hagrees

/-- A file of the tree is stored. -/
theorem Tree.Agrees.store (hagrees : T.Agrees c) {rel : List UInt8} {n : Node}
    (hn : T.look rel = .node n) (hkind : n.stat.kind = .regular) (hsize : ¬ n.stat.size < 0)
    (fd now : Nat) : T.Agrees (fileCacheStore c rel fd n.stat (mimeFromPath rel) now).1 := by
  unfold fileCacheStore
  extract_lets c' hash
  split
  · exact hagrees.init
  · split
    · exact hagrees.init
    · rename_i i hi
      refine hagrees.init.setEntry i ⟨⟨n, hn, hkind, hsize, ?_⟩, rfl⟩
      simp [sameMeta, fillEntry]

/-- The giving back of a descriptor leaves the entries as they were, but for the uses. -/
theorem Tree.Agrees.release {h : Handler} (hagrees : T.Agrees h.cache) (fd : Nat) :
    T.Agrees (h.staticCacheRelease fd).cache := by
  unfold Handler.staticCacheRelease
  split
  · exact hagrees
  · split
    · rename_i i e hat
      exact hagrees.setEntry i ((hagrees i e (Handler.cachedAt_some hat).1).uses _)
    · split
      · exact hagrees
      · dsimp only
        split
        · exact hagrees
        · exact hagrees

/-- What an answer leaves of the table: as it was where the table was not asked, and filled
from the tree where it was. -/
def Tree.Leaves (T : Tree) (useCache : Bool) (c c' : FileCache) : Prop :=
  if useCache then T.Agrees c' else c' = c

theorem Tree.Leaves.agrees {useCache : Bool} {c' : FileCache} (h : T.Leaves useCache c c')
    (hyes : useCache = true) : T.Agrees c' := by
  rwa [Leaves, if_pos hyes] at h

theorem Tree.Leaves.refl {useCache : Bool} (hagrees : useCache = true → T.Agrees c) :
    T.Leaves useCache c c := by
  cases useCache with
  | true => exact hagrees rfl
  | false => exact rfl

theorem Tree.Leaves.trans {useCache : Bool} {c' c'' : FileCache} (h : T.Leaves useCache c c')
    (h' : T.Leaves useCache c' c'') : T.Leaves useCache c c'' := by
  cases useCache with
  | true => exact h'
  | false => exact Eq.trans h' h

theorem findLoop_path {hash : UInt64} {path : List UInt8} {i : Fin FILE_CACHE_SLOTS}
    {e : CachedFile} (n : Nat) : ∀ k : Fin FILE_CACHE_SLOTS,
    findLoop c hash path n k = some (i, e) → e.path = path := by
  induction n with
  | zero => exact fun _ => nofun
  | succ n ih =>
      intro k hfind
      rw [findLoop] at hfind
      split at hfind
      · cases hfind
      · exact ih _ hfind
      · split at hfind
        · rename_i hsame
          cases hfind
          exact hsame.2
        · exact ih _ hfind

theorem fileCacheFind_path {path : List UInt8} {i : Fin FILE_CACHE_SLOTS} {e : CachedFile}
    (h : (fileCacheFind c path).2 = some (i, e)) : e.path = path := by
  unfold fileCacheFind at h
  dsimp only at h
  split at h
  · cases h
  · exact findLoop_path _ _ h

end Table

/-! ## Honest calls -/

/-- All the calls tell the truth. -/
def AllHonest (T : Tree) (calls : List StaticCall) : Prop := ∀ c ∈ calls, c.Honest T

instance AllHonest.decidable (T : Tree) (calls : List StaticCall) : Decidable (AllHonest T calls) :=
  List.decidableBAll _ calls

theorem allHonest_append {T : Tree} {a b : List StaticCall} :
    AllHonest T (a ++ b) ↔ AllHonest T a ∧ AllHonest T b := by
  simp only [AllHonest, List.mem_append]
  exact ⟨fun hall => ⟨fun c hc => hall c (.inl hc), fun c hc => hall c (.inr hc)⟩,
    fun hall c hc => hc.elim (hall.1 c) (hall.2 c)⟩

namespace Handler

section Honest

variable {h : Handler} {T : Tree} {now : Nat} {rel : List UInt8}

/-- An entry that was filled from the tree is found as it was. -/
theorem fileCacheRecheck_honest {i : Fin FILE_CACHE_SLOTS} {e : CachedFile}
    (hagrees : T.Agrees h.cache) (he : T.Holds e)
    (hhonest : AllHonest T (h.fileCacheRecheckCalls e now)) :
    armedPath (h.fileCacheRecheckCalls e now) = none ∧
      ∃ n k, h.fileCacheRecheck i e now = (some { e with checkedMs := n }, k) ∧
        T.Agrees k.cache := by
  unfold fileCacheRecheckCalls at hhonest ⊢
  unfold fileCacheRecheck
  by_cases hage : sub64 now e.checkedMs < FILE_CACHE_RECHECK_MS
  · rw [if_pos hage, if_pos hage]
    exact ⟨rfl, e.checkedMs, h, rfl, hagrees⟩
  · rw [if_neg hage] at hhonest ⊢
    rw [if_neg hage]
    obtain ⟨n, hn, hkind, hsize, hmeta⟩ := he.found
    have hstat : h.fstatat.1 = some n.stat := hhonest _ List.mem_cons_self n hn
    have hgood : ¬ (n.stat.kind ≠ .regular ∨ n.stat.size < 0) := by simp [hkind, hsize]
    simp only [hstat, if_neg hgood, hmeta, if_true]
    exact ⟨rfl, now, _, rfl, hagrees.setEntry i (he.checked now)⟩

/-- A hit of the table is an answer from the tree. -/
theorem Lookup.honest {calls : List StaticCall} {r : Bool × Handler}
    (hlookup : Lookup h rel now calls r) (hroom : STATIC_HDR_SIZE ≤ h.room)
    (hagrees : T.Agrees h.cache) (hhonest : AllHonest T calls) :
    T.Agrees r.2.cache ∧ (r.1 = false → armedPath calls = none) ∧
      (r.1 = true → ∃ n, T.look rel = .node n ∧ n.stat.kind = .regular ∧
        r.2.shown T calls = .regular h.hc.req rel n) := by
  cases hlookup with
  | absent => exact ⟨hagrees.init, fun _ => rfl, by rintro ⟨⟩⟩
  | @dropped i e k hfind hcheck =>
      have hi := fileCacheFind_entry hfind
      rw [fileCacheFind_cache] at hi
      obtain ⟨harmed, n, k', hcheck', hk'⟩ := fileCacheRecheck_honest (i := i) (h := { h with
        cache := h.cache.init }) hagrees.init (hagrees.init i e hi) hhonest
      rw [hcheck] at hcheck'
      cases hcheck'
  | @hit i e e' k hfind hcheck =>
      have hi := fileCacheFind_entry hfind
      rw [fileCacheFind_cache] at hi
      have he := hagrees.init i e hi
      obtain ⟨hhonest, -⟩ := allHonest_append.1 hhonest
      obtain ⟨harmed, m, k', hcheck', hk'⟩ := fileCacheRecheck_honest (i := i) (h := { h with
        cache := h.cache.init }) hagrees.init he hhonest
      have haside := fileCacheRecheck_aside { h with cache := h.cache.init } i e now
      rw [hcheck] at hcheck' haside
      obtain ⟨he', rfl⟩ : some e' = some { e with checkedMs := m } ∧ k = k' := by
        simpa only [Prod.mk.injEq] using hcheck'
      obtain rfl := Option.some.inj he'
      obtain ⟨n, hn, hkind, hsize, hmeta⟩ := he.found
      have hpath := fileCacheFind_path hfind
      have hsame : e.size = n.stat.size := by
        simp only [sameMeta, Bool.and_eq_true, beq_iff_eq] at hmeta
        exact hmeta.1.1.1.symm
      have hmime : e.mime = mimeFromPath rel := by rw [he.mime, hpath]
      have hroom' : STATIC_HDR_SIZE ≤ k.room := by
        have harena : k.arena = h.arena := haside.arena
        rw [room, harena]
        exact hroom
      rw [hpath] at hn
      dsimp only
      rw [hsame, hmime]
      refine ⟨?_, by rintro ⟨⟩, fun _ => ⟨n, hn, hkind, ?_⟩⟩
      · rw [@armRegular_cache { k with cache := fileCacheHold k.cache i } now rel e.fd n.stat.size
          false hroom']
        exact hk'.hold i
      · rw [shown_armRegular { k with cache := fileCacheHold k.cache i } T _ now e.fd false hroom'
          ?_ hn hkind hsize]
        · have hhc : k.hc = h.hc := haside.hc
          simp only [hhc]
        · rw [armedPath_append, harmed, armedPath_armRegularCalls k rel n.stat.size hroom']
          rfl

theorem Missed.honest {useCache : Bool} {calls : List StaticCall} {k : Handler}
    (hmissed : Missed h useCache rel now calls k) (hroom : STATIC_HDR_SIZE ≤ h.room)
    (hagrees : useCache = true → T.Agrees h.cache) (hhonest : AllHonest T calls) :
    T.Leaves useCache h.cache k.cache ∧ armedPath calls = none := by
  cases hmissed with
  | unasked => exact ⟨.refl hagrees, rfl⟩
  | miss hyes hlookup =>
      obtain ⟨hagrees', harmed, -⟩ := hlookup.honest hroom (hagrees hyes) hhonest
      rw [Tree.Leaves, if_pos hyes]
      exact ⟨hagrees', harmed rfl⟩

/-- A lookup and an open find what is in the tree. -/
theorem Fetched.honest {useCache : Bool} {calls : List StaticCall}
    {r : Except Handler (Nat × Stat × Handler)} (hfetched : Fetched h useCache rel now calls r)
    (hfile : h.hc.fileFd = none) (hroom : STATIC_HDR_SIZE ≤ h.room)
    (hagrees : useCache = true → T.Agrees h.cache) (hhonest : AllHonest T calls) :
    (∀ h', r = .error h' → T.Leaves useCache h.cache h'.cache ∧
      ((∃ n, T.look rel = .node n ∧ n.stat.kind = .regular ∧
          h'.shown T calls = .regular h.hc.req rel n) ∨
        ((∀ n, T.look rel ≠ .node n) ∧ h'.shown T calls = .refusal h.hc.req (T.look rel)))) ∧
      ∀ fd st h', r = .ok (fd, st, h') →
        T.Leaves useCache h.cache h'.cache ∧ armedPath calls = none ∧
        ∃ n, T.look rel = .node n ∧ n.stat = st := by
  cases hfetched with
  -- Found in the cache, which agrees with the tree.
  | hit hyes hlookup =>
      refine ⟨fun h' he => ?_, fun _ _ _ he => by injection he⟩
      rw [← Except.error.inj he]
      obtain ⟨hagrees', -, hhit⟩ := hlookup.honest hroom (hagrees hyes) hhonest
      rw [Tree.Leaves, if_pos hyes]
      exact ⟨hagrees', .inl (hhit rfl)⟩
  -- The open fails as the lookup in the tree says.
  | @refused calls k o r hmissed hopen hfd =>
      obtain ⟨hhonest, hlast⟩ := allHonest_append.1 hhonest
      have hopens : (T.look rel).Opens r := hlast _ (List.mem_singleton_self _)
      obtain ⟨hagrees', harmed⟩ := hmissed.honest hroom hagrees hhonest
      have haside := hmissed.aside.trans (openUnder_eq_aside hopen)
      have hnone : o.hc.fileFd = none := by rw [haside.hc, hfile]
      refine ⟨fun h' he => ?_, fun _ _ _ he => by injection he⟩
      rw [← Except.error.inj he]
      refine ⟨?_, .inr ⟨fun n hn => ?_, ?_⟩⟩
      · rw [armOpenError_cache r now hnone, openUnder_eq_cache hopen]
        exact hagrees'
      · rw [hn] at hopens
        obtain ⟨fd, rfl⟩ := hopens
        cases hfd
      · rw [shown_armOpenError o T _ now hopens hfd, haside.hc]
  | @blind calls k o fd hmissed hopen hstat =>
      -- The file is there, so that `fstat` knows it.
      obtain ⟨hhonest, hlast⟩ := allHonest_append.1 hhonest
      have hopens : (T.look rel).Opens (.opened fd) := hlast _ List.mem_cons_self
      have hfstat := hlast (.fstat rel none) (List.mem_cons_of_mem _ (List.mem_singleton_self _))
      cases hlook : T.look rel with
      | node n => cases hfstat n hlook
      | notFound | forbidden | failed =>
          rw [hlook] at hopens
          cases hopens
  -- The open gives the node, and `fstat` its attributes.
  | @opened calls k o fd st hmissed hopen hstat =>
      obtain ⟨hhonest, hlast⟩ := allHonest_append.1 hhonest
      have hopens : (T.look rel).Opens (.opened fd) := hlast _ List.mem_cons_self
      have hfstat := hlast (.fstat rel (some st))
        (List.mem_cons_of_mem _ (List.mem_singleton_self _))
      obtain ⟨hagrees', harmed⟩ := hmissed.honest hroom hagrees hhonest
      refine ⟨fun _ he => (by injection he), fun fd' st' h' he => ?_⟩
      injection he with he
      obtain ⟨-, rfl, rfl⟩ : _ ∧ st = st' ∧ o.fstat.2 = h' := by
        simpa only [Prod.mk.injEq] using he
      refine ⟨?_, by rw [armedPath_append, harmed]; rfl, ?_⟩
      · rw [show o.fstat.2.cache = o.cache from rfl, openUnder_eq_cache hopen]
        exact hagrees'
      · cases hlook : T.look rel with
        | node n => exact ⟨n, rfl, (Option.some.inj (hfstat n hlook)).symm⟩
        | notFound | forbidden | failed =>
            rw [hlook] at hopens
            cases hopens

/-- The end of `static_serve` for a file of the tree. -/
theorem serveOpened_honest (useCache : Bool) {n : Node} (fd : Nat) {calls : List StaticCall}
    (hfile : h.hc.fileFd = none) (hroom : STATIC_HDR_SIZE ≤ h.room)
    (hagrees : useCache = true → T.Agrees h.cache) (hn : T.look rel = .node n)
    (harmed : armedPath calls = none) :
    T.Leaves useCache h.cache (h.serveOpened useCache rel fd n.stat now).cache ∧
      (h.serveOpened useCache rel fd n.stat now).shown T (calls ++ h.serveOpenedCalls rel n.stat)
        = .regular h.hc.req rel n := by
  unfold serveOpened serveOpenedCalls
  by_cases hbad : n.stat.kind ≠ .regular ∨ n.stat.size < 0
  · rw [if_pos hbad, if_pos hbad, Answer.regular, if_pos hbad]
    have hnone : (h.close fd).hc.fileFd = none := hfile
    refine ⟨?_, shown_armKeepable ..⟩
    rw [armKeepable_cache _ _ _ hnone]
    exact .refl hagrees
  · rw [if_neg hbad, if_neg hbad]
    obtain ⟨hkind, hsize⟩ : n.stat.kind = .regular ∧ ¬ n.stat.size < 0 := by
      simpa only [not_or, not_not] using hbad
    have hpath : armedPath (calls ++ h.armRegularCalls rel n.stat.size (mimeFromPath rel))
        = some rel := by
      rw [armedPath_append, harmed, armedPath_armRegularCalls h rel n.stat.size hroom]
      rfl
    -- The table of open files has no part in what is armed.
    have harm : ∀ (c : FileCache) (owned : Bool), T.Leaves useCache h.cache c →
        T.Leaves useCache h.cache
            ({ h with cache := c }.armRegular fd n.stat.size (mimeFromPath rel) owned now).cache ∧
          ({ h with cache := c }.armRegular fd n.stat.size (mimeFromPath rel) owned now).shown T
            (calls ++ h.armRegularCalls rel n.stat.size (mimeFromPath rel))
              = .regular h.hc.req rel n := by
      intro c owned hc
      have hroom' : STATIC_HDR_SIZE ≤ { h with cache := c }.room := hroom
      rw [armRegular_cache rel fd n.stat.size owned hroom']
      exact ⟨hc, shown_armRegular { h with cache := c } T _ now fd owned hroom' hpath hn hkind hsize⟩
    extract_lets mime s
    cases useCache with
    | false => exact harm h.cache true rfl
    | true =>
        have hstore : T.Agrees s.1 := (hagrees rfl).store hn hkind hsize fd now
        rw [if_pos rfl]
        cases hs : s.2 with
        | some i => exact harm _ false (hstore.hold i)
        | none => exact harm _ true hstore

/-- `static_serve` on a directory. -/
theorem serveIndex_honest (useCache : Bool) (decoded redir : List UInt8) {calls : List StaticCall}
    (hfile : h.hc.fileFd = none) (hroom : h.room = 4096)
    (hagrees : useCache = true → T.Agrees h.cache) (harmed : armedPath calls = none)
    (hhonest : AllHonest T (h.serveIndexCalls useCache decoded rel redir now)) :
    T.Leaves useCache h.cache (h.serveIndex useCache decoded rel redir now).cache ∧
      (h.serveIndex useCache decoded rel redir now).shown T
          (calls ++ h.serveIndexCalls useCache decoded rel redir now)
        = T.answerIndex h.hc.req h.query decoded rel redir := by
  have hhead : STATIC_HDR_SIZE ≤ h.room := by
    rw [hroom]
    decide
  unfold serveIndexCalls at hhonest ⊢
  rw [serveIndex_eq, Tree.answerIndex]
  -- The slash is missing: redirect.
  by_cases hlast : decoded.getLast? ≠ some SLASH
  · rw [if_pos hlast, if_pos hlast, if_pos hlast]
    refine ⟨?_, shown_armDirRedirect h T _ now redir hroom⟩
    rw [armDirRedirect_cache _ hfile]
    exact .refl hagrees
  rw [if_neg hlast] at hhonest ⊢
  rw [if_neg hlast, if_neg hlast]
  -- The name with the index file does not fit.
  by_cases hlong : STATIC_PATH_MAX ≤ rel.length + 11
  · rw [if_pos hlong, if_pos hlong, if_pos hlong]
    refine ⟨?_, shown_armKeepable ..⟩
    rw [armKeepable_cache _ _ _ hfile]
    exact .refl hagrees
  rw [if_neg hlong] at hhonest ⊢
  rw [if_neg hlong, if_neg hlong]
  dsimp only at hhonest ⊢
  obtain ⟨rel', hrel'⟩ : ∃ r, r = rel ++ cstr "/index.html" := ⟨_, rfl⟩
  rw [← hrel'] at hhonest ⊢
  obtain ⟨hhonest, -⟩ := allHonest_append.1 hhonest
  have hfetched := h.fetch_fetched useCache rel' now
  obtain ⟨herror, hok⟩ := hfetched.honest hfile hhead hagrees hhonest
  cases hr : h.fetch useCache rel' now with
  -- The index file cannot be served, or came from the cache.
  | error h' =>
      obtain ⟨hagrees', hshown⟩ := herror h' hr
      refine ⟨hagrees', ?_⟩
      dsimp only
      rw [List.append_nil, shown_skip harmed]
      rcases hshown with ⟨n, hn, -, hshown⟩ | ⟨hno, hshown⟩
      · rw [hn]
        exact hshown
      · exact hshown.trans (match_refusal hno _ _).symm
  -- It is open, and is served like any other file.
  | ok r =>
      obtain ⟨fd, st, h'⟩ := r
      obtain ⟨hagrees', harmed', n, hn, rfl⟩ := hok fd st h' hr
      obtain ⟨haside, -⟩ := hfetched.arena.2 fd n.stat h' hr
      have hfile' : h'.hc.fileFd = none := by rw [haside.hc, hfile]
      have hhead' : STATIC_HDR_SIZE ≤ h'.room := by
        rw [room, haside.arena]
        exact hhead
      have hboth : armedPath (calls ++ h.fetchCalls useCache rel' now) = none := by
        rw [armedPath_append, harmed, harmed']
        rfl
      obtain ⟨hleaves, hshown⟩ := @serveOpened_honest _ _ now _ useCache _ fd _ hfile' hhead'
        hagrees'.agrees hn hboth
      refine ⟨hagrees'.trans hleaves, ?_⟩
      dsimp only
      rw [← List.append_assoc, hshown, hn, haside.hc]

/-- `static_serve` once the path is known. -/
theorem servePath_honest (useCache : Bool) (decoded redir : List UInt8)
    (hfile : h.hc.fileFd = none) (hroom : h.room = 4096)
    (hagrees : useCache = true → T.Agrees h.cache)
    (hhonest : AllHonest T (h.servePathCalls useCache decoded rel redir now)) :
    T.Leaves useCache h.cache (h.servePath useCache decoded rel redir now).cache ∧
      (h.servePath useCache decoded rel redir now).shown T
          (h.servePathCalls useCache decoded rel redir now)
        = T.answerPath h.hc.req h.query decoded rel redir := by
  have hhead : STATIC_HDR_SIZE ≤ h.room := by
    rw [hroom]
    decide
  unfold servePathCalls at hhonest ⊢
  rw [servePath_eq, Tree.answerPath]
  obtain ⟨hhonest, hrest⟩ := allHonest_append.1 hhonest
  have hfetched := h.fetch_fetched useCache rel now
  obtain ⟨herror, hok⟩ := hfetched.honest hfile hhead hagrees hhonest
  cases hr : h.fetch useCache rel now with
  | error h' =>
      obtain ⟨hagrees', hshown⟩ := herror h' hr
      refine ⟨hagrees', ?_⟩
      dsimp only
      rw [List.append_nil]
      rcases hshown with ⟨n, hn, hkind, hshown⟩ | ⟨hno, hshown⟩
      · rw [hn]
        dsimp only
        rw [if_neg (by simp [hkind])]
        exact hshown
      · exact hshown.trans (match_refusal hno _ _).symm
  | ok r =>
      obtain ⟨fd, st, h'⟩ := r
      obtain ⟨hagrees', harmed', n, hn, rfl⟩ := hok fd st h' hr
      obtain ⟨haside, -⟩ := hfetched.arena.2 fd n.stat h' hr
      have hfile' : h'.hc.fileFd = none := by rw [haside.hc, hfile]
      have hroom' : h'.room = 4096 := by rw [room, haside.arena, ← room, hroom]
      have hquery : h'.query = h.query := by rw [query, query, haside.hc]
      rw [hr] at hrest
      rw [hn]
      dsimp only at hrest ⊢
      by_cases hkind : n.stat.kind = .directory
      · rw [if_pos hkind] at hrest ⊢
        rw [if_pos hkind, if_pos hkind, ← hquery, ← haside.hc]
        obtain ⟨hleaves, hshown⟩ := @serveIndex_honest (h'.close fd) _ _ _ useCache decoded redir _
          hfile' hroom' hagrees'.agrees harmed' hrest
        exact ⟨hagrees'.trans hleaves, hshown⟩
      · rw [if_neg hkind, if_neg hkind, if_neg hkind, ← haside.hc]
        have hhead' : STATIC_HDR_SIZE ≤ h'.room := by
          rw [hroom']
          decide
        obtain ⟨hleaves, hshown⟩ := @serveOpened_honest _ _ now _ useCache _ fd _ hfile' hhead'
          hagrees'.agrees hn harmed'
        exact ⟨hagrees'.trans hleaves, hshown⟩

/-- `static_serve` answers from the tree. A table that it asks was filled from there. -/
theorem staticServe_honest (allowDotfiles : Bool) {dirFd : Option Nat} (useCache : Bool)
    (url : List UInt8) (urlLen : UInt16) (redir : List UInt8) (harena : h.arena = 0)
    (hfile : h.hc.fileFd = none) (hmethod : h.hc.req.method = .get ∨ h.hc.req.method = .head)
    (hdir : dirFd ≠ none) (hagrees : useCache = true → T.Agrees h.cache)
    (hhonest : AllHonest T
      (staticServeCalls allowDotfiles h dirFd useCache url urlLen redir now)) :
    T.Leaves useCache h.cache
        (staticServe allowDotfiles h dirFd useCache url urlLen redir now).cache ∧
      (staticServe allowDotfiles h dirFd useCache url urlLen redir now).shown T
          (staticServeCalls allowDotfiles h dirFd useCache url urlLen redir now)
        = T.answer allowDotfiles h.hc.req h.query redir (percentDecode url urlLen STATIC_PATH_MAX) := by
  rw [staticServeCalls_eq allowDotfiles dirFd useCache url urlLen redir now harena hmethod hdir]
    at hhonest ⊢
  rw [staticServe_eq allowDotfiles dirFd useCache url urlLen redir now harena hmethod hdir]
  have hbuffers : ∀ (k : Handler) (a b : Nat) (rest : List StaticCall),
      k.shown T (.alloc STATIC_PATH_MAX a :: .alloc STATIC_PATH_MAX b :: rest) = k.shown T rest :=
    fun _ _ _ _ => rfl
  rw [hbuffers]
  have hrest := (allHonest_append (a := [_, _])).1 hhonest |>.2
  obtain ⟨k, hk⟩ : ∃ k : Handler, k = { h with arena := 2 * STATIC_PATH_MAX } := ⟨_, rfl⟩
  have hroom : k.room = 4096 := by
    simp only [hk, room]
    decide
  have hhc : k.hc = h.hc := by rw [hk]
  have hquery : k.query = h.query := by rw [query, query, hhc]
  have hfile' : k.hc.fileFd = none := by rw [hhc, hfile]
  have hcache : k.cache = h.cache := by rw [hk]
  rw [← hk] at hrest ⊢
  rw [← hcache] at hagrees ⊢
  rw [← hhc, ← hquery]
  dsimp only
  cases hdecode : percentDecode url urlLen STATIC_PATH_MAX with
  | none =>
      refine ⟨?_, shown_armClose ..⟩
      rw [armClose_cache _ _ hfile']
      exact .refl hagrees
  | some decoded =>
      rw [hdecode] at hrest
      dsimp only at hrest ⊢
      rw [Tree.answer]
      cases hnorm : normalizePath allowDotfiles decoded STATIC_PATH_MAX with
      | none =>
          dsimp only
          refine ⟨?_, shown_armKeepable ..⟩
          rw [armKeepable_cache _ _ _ hfile']
          exact .refl hagrees
      | some rel =>
          rw [hnorm] at hrest
          exact servePath_honest useCache decoded redir hfile' hroom hagrees hrest

end Honest

end Handler

end TinyServer.Static
