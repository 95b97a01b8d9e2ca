import Mathlib.Data.Nat.Digits.Lemmas
import TinyServer.Static.Moves

/-!
# What the functions of `static.c` do with descriptors

Each function from the table up to `static_on_write` makes only moves of its slot. A
function that arms a file needs a connection without one and room in the arena for the
head (`Clear`).
-/

set_option autoImplicit false

namespace TinyServer.Static

open TinyServer.Http TinyServer.Net
open TinyServer.Net.Holding

namespace Handler

variable {h : Handler}

/-! ## The table -/

/-- An entry gets another descriptor: the old one leaves as `tombstone` has it leave. -/
theorem retireFd_setEntry (h : Handler) (i : Fin FILE_CACHE_SLOTS) (e : CachedFile) (s : CacheSlot) :
    { h.retireFd e.fd e.uses with cache := (h.retireFd e.fd e.uses).cache.setEntry i s } =
      { h.tombstone i e with cache := (h.tombstone i e).cache.setEntry i s } := by
  unfold tombstone retireFd
  by_cases huses : e.uses = 0
  · rw [if_pos huses, if_pos huses]
    show Handler.mk .. = Handler.mk ..
    congr 1
    unfold FileCache.setEntry
    show FileCache.mk .. = FileCache.mk ..
    congr 1
    exact (Function.update_idem ..).symm
  rw [if_neg huses, if_neg huses]
  have hfree : freeRetired { h with cache := h.cache.setEntry i .tombstone }.cache =
      freeRetired h.cache := rfl
  rw [hfree]
  cases freeRetired h.cache with
  | none =>
      show Handler.mk .. = Handler.mk ..
      congr 1
      unfold FileCache.setEntry
      rw [Function.update_idem]
  | some r =>
      show Handler.mk .. = Handler.mk ..
      congr 1
      unfold FileCache.setEntry FileCache.setRetired
      rw [Function.update_idem]

/-- A local descriptor goes to an entry that has none. -/
theorem putEntry_steps {i : Fin FILE_CACHE_SLOTS} {e : CachedFile} (hready : h.cache.ready = true)
    (hfree : FileCache.entryFd (h.cache.entries i) = none) (huses : e.uses = 0)
    (hgood : FileCache.GoodFile e.mime e.size) :
    Steps h (some e.fd) { h with cache := h.cache.setEntry i (.live e) } none := by
  refine .one [] rfl (fun hok => ?_) (List.append_nil _).symm fun j d _ => ?_
  · refine hok.setEntry hready i fun e' he' => ?_
    rw [← CacheSlot.live.inj he']
    exact hgood
  · have hempty : (h.on j d (some e.fd)).place (.cached i) = none := hfree
    have hm : PlaceMove j (h.on j d (some e.fd)) _ _ :=
      .move _ (.slot j .opened) (.cached i) hempty rfl
    rw [on_place_opened, Option.map_some] at hm
    have hset := on_setEntry h j d (some e.fd) i (.live e)
    have hnone := on_opened { h with cache := h.cache.setEntry i (.live e) } j d (some e.fd) none
    rw [hset, Option.map_none] at hnone
    rw [hnone, show FileCache.entryFd (.live e) = some (e.fd, 0) by rw [← huses]; rfl]
    exact hm

theorem tombstone_entry (h : Handler) (i : Fin FILE_CACHE_SLOTS) (e : CachedFile) :
    (h.tombstone i e).cache.entries i = .tombstone := by
  have hset : (h.cache.setEntry i .tombstone).entries i = .tombstone := Function.update_self ..
  unfold tombstone retireFd
  split
  · exact hset
  · split
    · exact hset
    · exact hset

theorem tombstone_ready (h : Handler) (i : Fin FILE_CACHE_SLOTS) (e : CachedFile) :
    (h.tombstone i e).cache.ready = h.cache.ready := by
  unfold tombstone retireFd
  split
  · rfl
  · split
    · rfl
    · rfl

/-- Each type `mime_from_path` gives is short. -/
theorem mimeFromPath_good (path : List UInt8) : FileCache.GoodMime (mimeFromPath path) := by
  have hgood : ∀ {b : Prop} [Decidable b] {s t : List UInt8}, FileCache.GoodMime s →
      FileCache.GoodMime t → FileCache.GoodMime (if b then s else t) := by
    intro b _ s t hs ht
    split
    · exact hs
    · exact ht
  unfold mimeFromPath
  cases extensionLoop path none with
  | none => exact ⟨by decide, by decide⟩
  | some ext =>
      dsimp only
      iterate 14 apply hgood ⟨by decide, by decide⟩
      exact ⟨by decide, by decide⟩

/-- The test for a regular file. -/
theorem size_of_regular {st : Stat} (h : ¬ (st.kind ≠ .regular ∨ st.size < 0)) : 0 ≤ st.size :=
  Int64.not_lt.1 fun hneg => h (Or.inr hneg)

theorem fileCacheRecheck_aside (h : Handler) (i : Fin FILE_CACHE_SLOTS) (e : CachedFile)
    (now : Nat) : Aside h (h.fileCacheRecheck i e now).2 := by
  have hgone : ∀ h', Aside h h' → Aside h (h'.tombstone i e) := fun h' ha =>
    ha.trans (tombstone_aside h' i e)
  unfold fileCacheRecheck
  split
  · exact .refl h
  extract_lets s e' src o h'
  split
  · exact hgone s.2 ⟨rfl, rfl, rfl⟩
  · split
    · exact hgone s.2 ⟨rfl, rfl, rfl⟩
    · split
      · exact ⟨rfl, rfl, rfl⟩
      · have hstat : Aside h s.2 := ⟨rfl, rfl, rfl⟩
        have hopen : Aside h o.2 := hstat.trans (openUnder_aside s.2 e.path)
        split
        · have hretire := hopen.trans (retireFd_aside o.2 e.fd e.uses)
          exact ⟨hretire.hc, hretire.arena, hretire.traffic⟩
        · exact hgone o.2 hopen

/-- `file_cache_recheck` drops the entry, keeps it or gives it a new descriptor. -/
theorem fileCacheRecheck_steps {i : Fin FILE_CACHE_SLOTS} {e : CachedFile} (now : Nat)
    (hok : h.cache.Ok) (hi : h.cache.entries i = .live e) :
    Steps h none (h.fileCacheRecheck i e now).2 none ∧
      ∀ e', (h.fileCacheRecheck i e now).1 = some e' →
        (h.fileCacheRecheck i e now).2.cache.entries i = .live e' := by
  have hstat := h.fstatat_steps none
  unfold fileCacheRecheck
  by_cases hage : sub64 now e.checkedMs < FILE_CACHE_RECHECK_MS
  · rw [if_pos hage]
    refine ⟨.refl h none, fun e' he' => ?_⟩
    rw [← Option.some.inj he']
    exact hi
  rw [if_neg hage]
  simp only
  cases hs : h.fstatat.1 with
  | none => exact ⟨hstat.trans (tombstone_steps none hi), nofun⟩
  | some st =>
      simp only
      split
      · exact ⟨hstat.trans (tombstone_steps none hi), nofun⟩
      · rename_i hregular
        split
        · refine ⟨hstat.trans (.same rfl (fun hcache => ?_) rfl fun j d => ?_), fun e' he' => ?_⟩
          · refine hcache.setEntry (hok.ready hi) i fun e' he' => ?_
            rw [← CacheSlot.live.inj he']
            exact hok.good i e hi
          · rw [on_setEntry]
            apply put_same
            show FileCache.entryFd (h.cache.entries i) = _
            rw [hi]
            rfl
          · rw [← Option.some.inj he']
            exact Function.update_self ..
        · have hopen := openUnder_steps h.fstatat.2 e.path
          have hcache : (h.fstatat.2.openUnder e.path).2.cache = h.cache := openLoop_cache ..
          generalize h.fstatat.2.openUnder e.path = o at hopen hcache
          obtain ⟨r, o⟩ := o
          have hio : o.cache.entries i = .live e := by
            rw [show o.cache = h.cache from hcache]
            exact hi
          have hdrop := fun tmp => tombstone_steps tmp hio
          cases r with
          | opened fd =>
              simp only
              refine ⟨?_, fun e' he' => ?_⟩
              · refine (hstat.trans hopen).trans ((hdrop (some fd)).trans ?_)
                rw [retireFd_setEntry]
                refine putEntry_steps ?_ ?_ rfl ⟨mimeFromPath_good e.path, size_of_regular hregular⟩
                · rw [tombstone_ready, show o.cache = h.cache from hcache]
                  exact hok.ready hi
                · rw [tombstone_entry]
                  rfl
              · rw [← Option.some.inj he']
                exact Function.update_self ..
          | again | notFound | forbidden | failed =>
              exact ⟨(hstat.trans hopen).trans (hdrop none), nofun⟩

/-- `file_cache_find` gives an entry of the initialized table. -/
theorem findLoop_entry {c : FileCache} {hash : UInt64} {path : List UInt8}
    {i : Fin FILE_CACHE_SLOTS} {e : CachedFile} (n : Nat) : ∀ k : Fin FILE_CACHE_SLOTS,
    findLoop c hash path n k = some (i, e) → c.entries i = .live e := by
  induction n with
  | zero => exact fun _ => nofun
  | succ n ih =>
      intro k hfind
      rw [findLoop] at hfind
      cases hk : c.entries k with
      | empty =>
          rw [hk] at hfind
          cases hfind
      | tombstone =>
          rw [hk] at hfind
          exact ih _ hfind
      | live f =>
          rw [hk] at hfind
          simp only at hfind
          split at hfind
          · cases hfind
            exact hk
          · exact ih _ hfind

theorem fileCacheFind_entry {c : FileCache} {path : List UInt8} {i : Fin FILE_CACHE_SLOTS}
    {e : CachedFile} (h : (fileCacheFind c path).2 = some (i, e)) :
    (fileCacheFind c path).1.entries i = .live e := by
  unfold fileCacheFind at h ⊢
  simp only at h ⊢
  split at h
  · cases h
  · rename_i hlen
    rw [if_neg hlen]
    exact findLoop_entry _ _ h

theorem fileCacheFind_cache (c : FileCache) (path : List UInt8) :
    (fileCacheFind c path).1 = c.init := by
  unfold fileCacheFind
  simp only
  split
  · rfl
  · rfl

/-- The table is set up before its first use. -/
theorem init_steps (h : Handler) (tmp : Option Nat) :
    Steps h tmp { h with cache := h.cache.init } tmp := by
  intro hok
  refine ⟨rfl, hok.init, [], (List.append_nil _).symm, nofun, fun j d _ => ?_⟩
  have heq : { h with cache := h.cache.init }.on j d tmp = h.on j d tmp := by
    rw [hok.init_eq]
    rfl
  rw [heq]
  exact .refl _

/-- A descriptor is stored in an entry that has none. -/
theorem storeLoop_free {c : FileCache} {i : Fin FILE_CACHE_SLOTS} (n : Nat) :
    ∀ (k : Fin FILE_CACHE_SLOTS) (reuse : Option (Fin FILE_CACHE_SLOTS)),
      (∀ r, reuse = some r → FileCache.entryFd (c.entries r) = none) →
      storeLoop c n k reuse = some i → FileCache.entryFd (c.entries i) = none := by
  induction n with
  | zero => exact fun _ reuse hreuse hstore => hreuse i hstore
  | succ n ih =>
      intro k reuse hreuse hstore
      rw [storeLoop] at hstore
      cases hk : c.entries k with
      | empty =>
          rw [hk] at hstore
          rw [← Option.some.inj hstore, hk]
          rfl
      | tombstone =>
          rw [hk] at hstore
          refine ih _ _ (fun r hr => ?_) hstore
          cases hre : reuse with
          | none =>
              rw [hre] at hr
              rw [← Option.some.inj hr, hk]
              rfl
          | some r' =>
              rw [hre] at hr
              rw [← Option.some.inj hr]
              exact hreuse r' hre
      | live f =>
          rw [hk] at hstore
          exact ih _ _ hreuse hstore

section Store

variable (h) (path : List UInt8) (fd : Nat) (st : Stat) {mime : List UInt8} (now : Nat)

/-- `file_cache_store` finds no entry: the caller keeps its descriptor. -/
theorem fileCacheStore_kept (hkept : (fileCacheStore h.cache path fd st mime now).2 = none) :
    Steps h (some fd) { h with cache := (fileCacheStore h.cache path fd st mime now).1 }
      (some fd) := by
  have hinit := init_steps h (some fd)
  unfold fileCacheStore at hkept ⊢
  simp only at hkept ⊢
  split
  · exact hinit
  · rename_i hlen
    rw [if_neg hlen] at hkept
    split
    · exact hinit
    · rename_i i hstore
      rw [hstore] at hkept
      cases hkept

/-- `file_cache_store` puts the descriptor in the table. -/
theorem fileCacheStore_stored {i : Fin FILE_CACHE_SLOTS} (hgood : FileCache.GoodFile mime st.size)
    (hstored : (fileCacheStore h.cache path fd st mime now).2 = some i) :
    Steps h (some fd) { h with cache := (fileCacheStore h.cache path fd st mime now).1 } none ∧
      (fileCacheStore h.cache path fd st mime now).1.entries i =
        .live (fillEntry (pathHash path) path fd st mime now) := by
  have hinit := init_steps h (some fd)
  unfold fileCacheStore at hstored ⊢
  simp only at hstored ⊢
  split
  · rename_i hlen
    rw [if_pos hlen] at hstored
    cases hstored
  · rename_i hlen
    rw [if_neg hlen] at hstored
    split
    · rename_i hstore
      rw [hstore] at hstored
      cases hstored
    · rename_i k hstore
      rw [hstore] at hstored
      rw [← Option.some.inj hstored]
      refine ⟨hinit.trans ?_, Function.update_self ..⟩
      have hput : Steps { h with cache := h.cache.init } (some fd) _ none :=
        putEntry_steps (FileCache.init_ready h.cache) (storeLoop_free _ _ none nofun hstore)
          (show (fillEntry (pathHash path) path fd st mime now).uses = 0 from rfl) hgood
      exact hput

end Store

/-! ## The end of a file -/

theorem cachedAt_some {c : FileCache} {fd : Nat} {i : Fin FILE_CACHE_SLOTS} {e : CachedFile}
    (hat : cachedAt c fd = some (i, e)) : c.entries i = .live e ∧ e.fd = fd := by
  obtain ⟨k, -, hk⟩ := List.exists_of_findSome?_eq_some hat
  cases hentry : c.entries k with
  | empty =>
      rw [hentry] at hk
      cases hk
  | tombstone =>
      rw [hentry] at hk
      cases hk
  | live f =>
      rw [hentry] at hk
      simp only at hk
      split at hk
      · rename_i hfd
        cases hk
        exact ⟨hentry, hfd⟩
      · cases hk

theorem cachedAt_none {c : FileCache} {fd : Nat} (hat : cachedAt c fd = none)
    {i : Fin FILE_CACHE_SLOTS} {e : CachedFile} (hi : c.entries i = .live e) : e.fd ≠ fd := by
  have hno := List.findSome?_eq_none_iff.1 hat i (List.mem_finRange i)
  rw [hi] at hno
  simp only at hno
  split at hno
  · cases hno
  · assumption

theorem retiredAt_some {c : FileCache} {fd : Nat} {i : Fin FILE_CACHE_RETIRED} {r : RetiredFd}
    (hat : retiredAt c fd = some (i, r)) : c.retired i = some r ∧ r.fd = fd := by
  obtain ⟨k, -, hk⟩ := List.exists_of_findSome?_eq_some hat
  cases hentry : c.retired k with
  | none =>
      rw [hentry] at hk
      cases hk
  | some x =>
      rw [hentry] at hk
      simp only at hk
      split at hk
      · rename_i hfd
        cases hk
        exact ⟨hentry, hfd⟩
      · cases hk

theorem retiredAt_none {c : FileCache} {fd : Nat} (hat : retiredAt c fd = none)
    {i : Fin FILE_CACHE_RETIRED} {r : RetiredFd} (hi : c.retired i = some r) : r.fd ≠ fd := by
  have hno := List.findSome?_eq_none_iff.1 hat i (List.mem_finRange i)
  rw [hi] at hno
  simp only at hno
  split at hno
  · cases hno
  · assumption

section Release

variable {fd : Nat}

/-- A descriptor that is neither in the table nor in the retired list is in use nowhere. -/
theorem place_unused {j : Nat} {d : Holding Place} {tmp : Option Nat} (hd : Plain d)
    (hcached : ∀ i e, h.cache.entries i = .live e → e.fd ≠ fd)
    (hretired : ∀ i r, h.cache.retired i = some r → r.fd ≠ fd) (p : Place) (n : Nat)
    (hp : (h.on j d tmp).place p = some (fd, n)) : n = 0 := by
  have hmap : ∀ o : Option Nat, o.map (fun fd => (fd, 0)) = some (fd, n) → n = 0 := by
    intro o ho
    obtain ⟨x, -, hx⟩ := Option.map_eq_some_iff.1 ho
    cases hx
    rfl
  cases p with
  | cached i =>
      have hentry : FileCache.entryFd (h.cache.entries i) = some (fd, n) := hp
      cases hi : h.cache.entries i with
      | empty =>
          rw [hi] at hentry
          cases hentry
      | tombstone =>
          rw [hi] at hentry
          cases hentry
      | live e =>
          rw [hi] at hentry
          cases hentry
          exact absurd rfl (hcached i e hi)
  | retired i =>
      obtain ⟨r, hr, hx⟩ := Option.map_eq_some_iff.1 hp
      cases hx
      exact absurd rfl (hretired i r hr)
  | idle k => exact hd.1 k fd n hp
  | slot k part =>
      cases part with
      | client => exact hd.2 k .client fd n hp
      | upstream => exact hd.2 k .upstream fd n hp
      | own =>
          by_cases hk : k = j
          · have hown : (if h.hc.fileOwned then h.hc.fileFd.map fun fd => (fd, 0) else none) =
                some (fd, n) := (if_pos hk).symm.trans hp
            split at hown
            · exact hmap _ hown
            · cases hown
          · exact hd.2 k .own fd n ((if_neg hk).symm.trans hp)
      | opened =>
          by_cases hk : k = j
          · exact hmap tmp ((if_pos hk).symm.trans hp)
          · exact hd.2 k .opened fd n ((if_neg hk).symm.trans hp)

/-- A connection gives back what it holds. -/
theorem staticCacheRelease_steps {hc : HttpConn} (hheld : h.hc.fileFd = some fd)
    (hshared : h.hc.fileOwned = false) (hfd : hc.fd = h.hc.fd) (hnone : hc.fileFd = none)
    (tmp : Option Nat) :
    Steps h tmp { h.staticCacheRelease fd with hc := hc } tmp := by
  have hholds : ∀ j d, (h.on j d tmp).held j = some fd := by
    intro j d
    rw [on_held_self, hshared, hheld]
    rfl
  -- The handle given up is the one move of the slot, whatever becomes of the cache.
  have hback : ∀ c : FileCache, ∀ k : Kernel, ∀ j d,
      Handler.on { h with cache := c, kernel := k, hc := hc } j d tmp =
        (Handler.on { h with cache := c } j d tmp).setHeld j none := by
    intro c k j d
    have := on_held { h with cache := c } j d tmp hc (Or.inr hshared) (Or.inl hnone)
    rw [hnone] at this
    exact this
  -- A descriptor that the cache no longer holds stays open, and only the slot lets go.
  have hlost (hcached : ∀ i e, h.cache.entries i = .live e → e.fd ≠ fd)
      (hretired : ∀ i r, h.cache.retired i = some r → r.fd ≠ fd) :
      Steps h tmp { h with hc := hc } tmp := by
    refine .one [] hfd id (List.append_nil _).symm fun j d hd => ?_
    have hm : PlaceMove j (h.on j d tmp) _ _ :=
      .releaseLost _ fd (hholds j d) (place_unused hd hcached hretired)
    have heq := hback h.cache h.kernel j d
    rw [← heq] at hm
    exact hm
  unfold staticCacheRelease
  cases hready : h.cache.ready with
  | false =>
      rw [if_pos (show (!false) = true from rfl)]
      intro hok
      refine hlost (fun i e hi => ?_) (fun i r hi => ?_) hok
      · rw [hok.entries hready i] at hi
        cases hi
      · rw [hok.retired hready i] at hi
        cases hi
  | true =>
      rw [if_neg (show ¬ (!true) = true from nofun)]
      cases hat : cachedAt h.cache fd with
      -- The file is in the table: one use less.
      | some p =>
          obtain ⟨i, e⟩ := p
          obtain ⟨hi, he⟩ := cachedAt_some hat
          refine .one [] hfd (fun hok => ?_) (List.append_nil _).symm fun j d _ => ?_
          · refine hok.setEntry hready i fun e' he' => ?_
            rw [← CacheSlot.live.inj he']
            exact hok.good i e hi
          · have hplace : (h.on j d tmp).place (.cached i) = some (fd, e.uses) := by
              show FileCache.entryFd (h.cache.entries i) = _
              rw [hi, ← he]
              rfl
            have hm : PlaceMove j (h.on j d tmp) _ _ :=
              .release _ (.cached i) fd e.uses hplace (hholds j d)
            have heq := hback (h.cache.setEntry i (.live { e with uses := e.uses - 1 })) h.kernel j d
            rw [on_setEntry, show FileCache.entryFd (.live { e with uses := e.uses - 1 }) =
              some (fd, e.uses - 1) by rw [← he]; rfl] at heq
            rw [← heq] at hm
            exact hm
      | none =>
          simp only
          cases hret : retiredAt h.cache fd with
          | none =>
              exact hlost (fun _ _ hi => cachedAt_none hat hi) fun _ _ hi => retiredAt_none hret hi
          -- It was retired, and the last use closes it.
          | some p =>
              obtain ⟨i, r⟩ := p
              obtain ⟨hi, hr⟩ := retiredAt_some hret
              have hplace : ∀ j d, (h.on j d tmp).place (.retired i) = some (fd, r.uses) := by
                intro j d
                show Option.map _ (h.cache.retired i) = _
                rw [hi, ← hr]
                rfl
              have hgive : ∀ j d, PlaceMove j (h.on j d tmp) _ _ := fun j d =>
                .release _ (.retired i) fd r.uses (hplace j d) (hholds j d)
              simp only
              by_cases huses : r.uses - 1 = 0
              · rw [if_pos huses]
                intro hok
                refine ⟨hfd, hok.setRetired hready i nofun, [.close fd], rfl, fun c hc => ?_,
                  fun j d _ => ?_⟩
                · rw [List.mem_singleton.1 hc]
                  rfl
                have hfree : (((h.on j d tmp).put (.retired i) (some (fd, r.uses - 1))).setHeld j
                    none).place (.retired i) = some (fd, 0) := by
                  rw [← huses]
                  exact put_place_self _ _ _
                have hm : PlaceMove j _ _ _ := .close _ (.retired i) fd hfree
                have hms := (hgive j d).moves.trans hm.moves
                have heq := hback (h.cache.setRetired i none) (h.kernel.close fd) j d
                rw [on_setRetired] at heq
                refine Eq.subst (motive := fun x => PlaceMoves j _ _ x) ?_ hms
                refine Eq.trans ?_ heq.symm
                show Holding.setHeld (((h.on j d tmp).put _ _).put _ _) j none = _
                rw [put_put]
                rfl
              -- It was retired, and others use it still.
              · rw [if_neg huses]
                refine .one [] hfd (fun hok => ?_) (List.append_nil _).symm fun j d _ => ?_
                · refine hok.setRetired hready i fun x hx => ?_
                  rw [← Option.some.inj hx]
                  show 0 < r.uses - 1
                  omega
                · have heq := hback (h.cache.setRetired i (some ⟨r.fd, r.uses - 1⟩)) h.kernel j d
                  rw [on_setRetired, Option.map_some, hr] at heq
                  have hm := hgive j d
                  rw [← heq, ← hr] at hm
                  exact hm

theorem staticCacheRelease_hc (h : Handler) (fd : Nat) : (h.staticCacheRelease fd).hc = h.hc := by
  unfold staticCacheRelease
  split
  · rfl
  split
  · rfl
  split
  · rfl
  extract_lets uses
  split
  · rfl
  · rfl

theorem releaseFile_hc (h : Handler) : h.releaseFile.hc = h.hc := by
  unfold releaseFile
  split
  · rfl
  split
  · rfl
  · exact staticCacheRelease_hc h _

/-- A connection is rid of its file. -/
theorem releaseFile_steps {hc : HttpConn} (hsame : hc.fd = h.releaseFile.hc.fd)
    (hnone : hc.fileFd = none) (tmp : Option Nat) :
    Steps h tmp { h.releaseFile with hc := hc } tmp := by
  rw [releaseFile_hc] at hsame
  unfold releaseFile
  cases hfd : h.hc.fileFd with
  | none => exact .same hsame id rfl fun j d => on_noFile j d tmp rfl hfd hnone
  | some fd =>
      cases howned : h.hc.fileOwned with
      | true =>
          refine .one [.close fd] hsame id rfl fun j d _ => ?_
          have hplace : (h.on j d tmp).place (.slot j .own) = some (fd, 0) := by
            rw [on_place_own, howned, hfd]
            rfl
          have hm : PlaceMove j (h.on j d tmp) _ _ := .close _ (.slot j .own) fd hplace
          have heq := on_own h j d tmp hc (Or.inr howned) (Or.inl hnone)
          rw [hnone, Option.map_none] at heq
          rw [← heq] at hm
          exact hm
      | false => exact staticCacheRelease_steps hfd howned hsame hnone tmp

theorem dropFile_steps (h : Handler) (tmp : Option Nat) : Steps h tmp h.dropFile tmp := by
  unfold dropFile
  cases hfd : h.hc.fileFd with
  | none => exact .refl h tmp
  | some fd => exact releaseFile_steps (by rfl) (by rfl) tmp

end Release

/-! ## Arming an answer -/

/-- The connection has no file, and the arena has room for a head. -/
def Clear (h : Handler) : Prop :=
  h.hc.fileFd = none ∧ h.arena + STATIC_HDR_SIZE ≤ TINY_BUMP_SIZE

theorem Clear.aside {h h' : Handler} (hclear : Clear h) (a : Aside h h') : Clear h' := by
  unfold Clear
  rw [a.hc, a.arena]
  exact hclear

theorem formatLld_le (size : Int64) : (formatLld size.toInt).length ≤ 20 := by
  have hlt := size.toInt_lt
  have hle := size.le_toInt
  unfold formatLld
  rw [List.length_append]
  have hsign : (if size.toInt < 0 then cstr "-" else []).length ≤ 1 := by
    split
    · decide
    · exact Nat.zero_le 1
  have hdigits : (if size.toInt = 0 then cstr "0"
      else (Nat.digits 10 size.toInt.natAbs).reverse.map fun d => UInt8.ofNat (0x30 + d)).length
        ≤ 19 := by
    split
    · decide
    · rw [List.length_map, List.length_reverse, Nat.digits_length_le_iff (by decide)]
      omega
  omega

/-- The head of a 200 fits its place in the arena. -/
theorem okHeader_lt (size : Int64) {mime : List UInt8} (keep : Bool) (hmime : mime.length ≤ 64) :
    (okHeader size.toInt mime keep).length < STATIC_HDR_SIZE := by
  have hsize := formatLld_le size
  have hkeep : (connectionText keep).length ≤ 10 := by
    cases keep with
    | true => decide
    | false => decide
  have hfirst : (cstr "HTTP/1.1 200 OK\r\nContent-Length: ").length = 33 := by decide
  have htype : (cstr "\r\nContent-Type: ").length = 16 := by decide
  have hconn : (cstr "\r\nConnection: ").length = 14 := by decide
  have hend : (cstr "\r\n\r\n").length = 4 := by decide
  unfold okHeader STATIC_HDR_SIZE
  simp only [List.length_append, hfirst, htype, hconn, hend]
  omega

/-- The response changes, and the connection is rid of its file. -/
theorem rearm_steps (h : Handler) (hc : HttpConn) (tmp : Option Nat) (hclient : hc.fd = h.hc.fd)
    (hfd : hc.fileFd = h.hc.fileFd) (howned : hc.fileOwned = h.hc.fileOwned) :
    Steps h tmp { h with hc := hc }.dropFile tmp := by
  have hsame : Steps h tmp { h with hc := hc } tmp :=
    .same hclient id rfl fun j d => on_congr j d tmp rfl rfl rfl hfd howned
  exact hsame.trans (dropFile_steps _ tmp)

section Arm

variable (h) (status now : Nat) (tmp : Option Nat)

theorem armFixed_steps (closeResp : List UInt8) (keepResp : Option (List UInt8)) (allowKeep : Bool) :
    Steps h tmp (h.armFixed closeResp keepResp allowKeep status now) tmp := by
  unfold armFixed
  split
  · exact rearm_steps h _ tmp rfl rfl rfl
  · exact rearm_steps h _ tmp rfl rfl rfl

theorem armClose_steps (resp : List UInt8) : Steps h tmp (h.armClose resp status now) tmp :=
  armFixed_steps h status now tmp resp none false

theorem armKeepable_steps (closeResp keepResp : List UInt8) :
    Steps h tmp (h.armKeepable closeResp keepResp status now) tmp :=
  armFixed_steps h status now tmp closeResp (some keepResp) true

theorem armOpenError_steps (r : OpenResult) : Steps h tmp (h.armOpenError r now) tmp := by
  cases r with
  | notFound => exact armKeepable_steps h _ now tmp _ _
  | forbidden => exact armKeepable_steps h _ now tmp _ _
  | opened fd => exact armClose_steps h _ now tmp _
  | again => exact armClose_steps h _ now tmp _
  | failed => exact armClose_steps h _ now tmp _

theorem bumpAlloc_steps {h' : Handler} {size : Nat} (hbump : h.bumpAlloc size = some h') :
    Steps h tmp h' tmp := by
  unfold bumpAlloc at hbump
  split at hbump
  · cases hbump
  · rw [← Option.some.inj hbump]
    exact .same rfl id rfl fun _ _ => rfl

theorem armDirRedirect_steps (path : List UInt8) : Steps h tmp (h.armDirRedirect path now) tmp := by
  unfold armDirRedirect
  extract_lets query need
  split
  · exact armClose_steps h _ now tmp _
  · rename_i h' hbump
    have halloc := bumpAlloc_steps h tmp hbump
    extract_lets keep src h₁ hdr
    have hkeep : Steps h' tmp h₁ tmp := .same rfl id rfl fun _ _ => rfl
    split
    · exact (halloc.trans hkeep).trans (armClose_steps _ _ now tmp _)
    · exact (halloc.trans hkeep).trans (rearm_steps h₁ _ tmp rfl rfl rfl)

/-- A connection without a file gets the local descriptor. -/
theorem armRegular_own {fd : Nat} (size : Int64) (mime : List UInt8) (hnone : h.hc.fileFd = none) :
    Steps h (some fd) (h.armRegular fd size mime true now) none := by
  have hgiveUp : ∀ h' : Handler, Steps h' (some fd)
      ((h'.close fd).armClose RESPONSE_500 500 now) none := fun h' =>
    (close_steps h' fd).trans (armClose_steps _ 500 now none _)
  unfold armRegular
  split
  · exact hgiveUp h
  · rename_i h' hbump
    have halloc := bumpAlloc_steps h (some fd) hbump
    have hnone' : h'.hc.fileFd = none := by
      unfold bumpAlloc at hbump
      split at hbump
      · cases hbump
      · rw [← Option.some.inj hbump]
        exact hnone
    extract_lets keep src h₁ hdr
    have hkeep : Steps h' (some fd) h₁ (some fd) := .same rfl id rfl fun _ _ => rfl
    split
    · exact (halloc.trans hkeep).trans (hgiveUp h₁)
    · refine (halloc.trans hkeep).trans (.trans ?_ (cork_steps _ true none))
      refine .one [] rfl id (List.append_nil _).symm fun j d _ => ?_
      have hfree : (h₁.on j d (some fd)).place (.slot j .own) = none := by
        rw [on_place_own, show h₁.hc.fileFd = none from hnone']
        exact ite_self _
      have hm : PlaceMove j (h₁.on j d (some fd)) _ _ :=
        .move _ (.slot j .opened) (.slot j .own) hfree rfl
      rw [on_place_opened, Option.map_some] at hm
      refine Eq.subst (motive := fun x => PlaceMove j _ _ x) ?_ hm
      rw [← Option.map_none (fun fd : Nat => (fd, 0))]
      refine Eq.symm ((on_opened _ j d (some fd) none).trans ?_)
      congr 1
      exact on_own h₁ j d (some fd) _ (Or.inl hnone') (Or.inr rfl)

/-- The response that `arm_regular` arms where nothing fails. -/
def armedFile (h : Handler) (fd : Nat) (size : Int64) (mime : List UInt8) (owned : Bool)
    (now : Nat) : HttpConn :=
  { h.hc with
    keep := httpShouldKeepalive h.hc.req
    statusCode := 200
    outHdr := okHeader size.toInt mime (httpShouldKeepalive h.hc.req)
    outHdrOff := 0
    fileFd := some fd
    fileOwned := owned
    fileSize := size.toInt.toNat
    fileOff := 0
    sendBody := decide (h.hc.req.method = HttpMethod.get ∧ 0 < size)
    phase := .writeHdr
    deadlineMs := now + h.hc.sendTimeoutMs }

theorem armRegular_fits (fd : Nat) (size : Int64) {mime : List UInt8} (owned : Bool)
    (hroom : h.arena + STATIC_HDR_SIZE ≤ TINY_BUMP_SIZE) (hmime : mime.length ≤ 64) :
    h.armRegular fd size mime owned now =
      { h with
        arena := h.arena + STATIC_HDR_SIZE
        hc := h.armedFile fd size mime owned now }.cork true := by
  have hfits : ¬ TINY_BUMP_SIZE - h.arena < STATIC_HDR_SIZE := by omega
  have hshort := Nat.not_le.2 (okHeader_lt size (httpShouldKeepalive h.hc.req) hmime)
  unfold armRegular bumpAlloc
  rw [if_neg hfits]
  dsimp only
  rw [if_neg hshort]
  rfl

/-- A connection without a file shares the descriptor of an entry. -/
theorem armRegular_shared {i : Fin FILE_CACHE_SLOTS} {e : CachedFile} (size : Int64)
    {mime : List UInt8} (hclear : Clear h) (hi : h.cache.entries i = .live e)
    (hmime : FileCache.GoodMime mime) :
    Steps h none
      ({ h with cache := fileCacheHold h.cache i }.armRegular e.fd size mime false now) none := by
  have hfits := armRegular_fits { h with cache := fileCacheHold h.cache i } now e.fd size false
    hclear.2 hmime.1
  rw [hfits]
  refine .trans ?_ (cork_steps _ true none)
  have hplace : ∀ j d, (h.on j d none).place (.cached i) = some (e.fd, e.uses) := by
    intro j d
    show FileCache.entryFd (h.cache.entries i) = _
    rw [hi]
    rfl
  have hfree : ∀ j d, (h.on j d none).held j = none := by
    intro j d
    rw [on_held_self, hclear.1]
    exact ite_self _
  have hheld : ∀ (c : FileCache) (hc : HttpConn) j d, hc.fileFd = some e.fd →
      hc.fileOwned = false → Handler.on { h with
        cache := c
        arena := h.arena + STATIC_HDR_SIZE
        hc := hc } j d none =
        (Handler.on { h with cache := c } j d none).setHeld j (some e.fd) := by
    intro c hc j d hfd hshared
    have := on_held { h with cache := c } j d none hc (Or.inl hclear.1) (Or.inr hshared)
    rw [hfd] at this
    exact this
  have hold : fileCacheHold h.cache i = if e.uses < UINT16_MAX
      then h.cache.setEntry i (.live { e with uses := e.uses + 1 }) else h.cache := by
    unfold fileCacheHold
    rw [hi]
  -- A count below 65535 goes up by one; at 65535 it stays.
  by_cases huses : e.uses < UINT16_MAX
  · rw [if_pos huses] at hold
    refine .one [] rfl (fun hok => ?_) (List.append_nil _).symm fun j d _ => ?_
    · show (fileCacheHold h.cache i).Ok
      rw [hold]
      refine hok.setEntry (hok.ready hi) i fun e' he' => ?_
      rw [← CacheSlot.live.inj he']
      exact hok.good i e hi
    · have hm : PlaceMove j (h.on j d none) _ _ :=
        .hold _ (.cached i) e.fd e.uses (hplace j d) rfl (hfree j d) huses
      have hset := on_setEntry h j d none i (.live { e with uses := e.uses + 1 })
      rw [← hold] at hset
      refine Eq.subst (motive := fun x => PlaceMove j _ _ x) ?_ hm
      refine Eq.symm ((hheld _ _ j d rfl rfl).trans ?_)
      rw [hset]
      rfl
  · rw [if_neg huses] at hold
    refine .one [] rfl (fun hok => ?_) (List.append_nil _).symm fun j d _ => ?_
    · show (fileCacheHold h.cache i).Ok
      rw [hold]
      exact hok
    · have hm : PlaceMove j (h.on j d none) _ _ :=
        .holdFull _ (.cached i) e.fd e.uses (hplace j d) rfl (hfree j d) (by omega)
      refine Eq.subst (motive := fun x => PlaceMove j _ _ x) ?_ hm
      refine Eq.symm ((hheld _ _ j d rfl rfl).trans ?_)
      show Holding.setHeld (Handler.on { h with cache := fileCacheHold h.cache i } j d none) j _ = _
      rw [hold]

end Arm

/-! ## Serving a path -/

section Serve

variable (h) (now : Nat)

/-- The table answers a request. -/
theorem serveCached_steps (rel : List UInt8) (hclear : Clear h) :
    Steps h none (h.serveCached rel now).2 none := by
  have hinit := init_steps h none
  have hcache := fileCacheFind_cache h.cache rel
  unfold serveCached
  simp only
  cases hfind : (fileCacheFind h.cache rel).2 with
  | none =>
      rw [hcache]
      exact hinit
  | some p =>
      obtain ⟨i, e⟩ := p
      have hi := fileCacheFind_entry hfind
      rw [hcache] at hi ⊢
      -- The check needs the invariant of the cache, which `Steps` assumes.
      intro hok
      obtain ⟨hcheck, hentry⟩ := fileCacheRecheck_steps (h := { h with cache := h.cache.init }) now
        hok.init hi
      have haside := fileCacheRecheck_aside { h with cache := h.cache.init } i e now
      have hboth := hinit.trans hcheck
      simp only
      cases hr : (fileCacheRecheck { h with cache := h.cache.init } i e now).1 with
      | none => exact hboth hok
      | some e' =>
          have he' := hentry e' hr
          have hmime := ((hboth hok).2.1.good i e' he').mime
          have hclear' : Clear (fileCacheRecheck { h with cache := h.cache.init } i e now).2 :=
            hclear.aside ⟨haside.hc, haside.arena, haside.traffic⟩
          exact (hboth.trans (armRegular_shared _ now e'.size hclear' he' hmime)) hok

/-- A request that the table does not answer leaves the connection as it was. -/
theorem serveCached_aside (rel : List UInt8) (hmiss : (h.serveCached rel now).1 = false) :
    Aside h (h.serveCached rel now).2 := by
  unfold serveCached at hmiss ⊢
  simp only at hmiss ⊢
  split at hmiss
  · exact ⟨rfl, rfl, rfl⟩
  · rename_i i e hf
    have hcheck := fileCacheRecheck_aside { h with cache := (fileCacheFind h.cache rel).1 } i e now
    split at hmiss
    · exact ⟨hcheck.hc, hcheck.arena, hcheck.traffic⟩
    · cases hmiss

variable {h}

theorem statOpened_error {o : OpenResult × Handler} {h' : Handler} (hs : Steps h none o.2 o.1.fd)
    (heq : statOpened o now = .error h') : Steps h none h' none := by
  obtain ⟨r, o⟩ := o
  unfold statOpened at heq
  cases r with
  | opened fd =>
      simp only at heq
      split at heq
      · rw [← Except.error.inj heq]
        have hfail := (fstat_steps o (some fd)).trans (close_steps o.fstat.2 fd)
        exact (hs.trans hfail).trans (armClose_steps _ 500 now none _)
      · cases heq
  | again | notFound | forbidden | failed =>
      rw [← Except.error.inj heq]
      exact hs.trans (armOpenError_steps o now none _)

theorem statOpened_ok {o : OpenResult × Handler} {fd : Nat} {st : Stat} {h' : Handler}
    (hs : Steps h none o.2 o.1.fd) (heq : statOpened o now = .ok (fd, st, h')) :
    Steps h none h' (some fd) ∧ Aside o.2 h' := by
  obtain ⟨r, o⟩ := o
  unfold statOpened at heq
  cases r with
  | opened x =>
      simp only at heq
      split at heq
      · cases heq
      · cases heq
        exact ⟨hs.trans (fstat_steps o (some fd)), ⟨rfl, rfl, rfl⟩⟩
  | again | notFound | forbidden | failed => cases heq

theorem serveOpened_steps (useCache : Bool) (rel : List UInt8) (fd : Nat) (st : Stat)
    (hclear : Clear h) : Steps h (some fd) (h.serveOpened useCache rel fd st now) none := by
  have hmime := mimeFromPath_good rel
  unfold serveOpened
  split
  · exact (close_steps h fd).trans (armKeepable_steps _ 403 now none _ _)
  · rename_i hregular
    extract_lets mime s
    cases useCache with
    | false => exact armRegular_own h now st.size _ hclear.1
    | true =>
        rw [if_pos rfl]
        cases hstore : s.2 with
        | none =>
            have hkept := fileCacheStore_kept h rel fd st now hstore
            exact hkept.trans (armRegular_own _ now st.size _ hclear.1)
        | some i =>
            obtain ⟨hs, hi⟩ := fileCacheStore_stored h rel fd st now
              ⟨hmime, size_of_regular hregular⟩ hstore
            have hshare := armRegular_shared { h with cache := s.1 } now st.size hclear hi hmime
            exact hs.trans hshare

/-- A request that the table is asked about first. -/
theorem lookup_steps (useCache : Bool) (rel : List UInt8) (hclear : Clear h) :
    Steps h none (if useCache then h.serveCached rel now else (false, h)).2 none ∧
      ((if useCache then h.serveCached rel now else (false, h)).1 = false →
        Clear (if useCache then h.serveCached rel now else (false, h)).2) := by
  cases useCache with
  | false => exact ⟨.refl h none, fun _ => hclear⟩
  | true =>
      refine ⟨serveCached_steps h now rel hclear, fun hmiss => ?_⟩
      exact hclear.aside (serveCached_aside h now rel hmiss)

theorem serveIndex_steps (useCache : Bool) (decoded rel redir : List UInt8) (hclear : Clear h) :
    Steps h none (h.serveIndex useCache decoded rel redir now) none := by
  unfold serveIndex
  split
  · exact armDirRedirect_steps h now none redir
  · split
    · exact armKeepable_steps h 404 now none _ _
    · extract_lets rel' c
      obtain ⟨hlookup, hmiss⟩ := lookup_steps now useCache rel' hclear
      split
      · exact hlookup
      · rename_i hfound
        have hclear' := hmiss (by simpa using hfound)
        have hopen := hlookup.trans (openUnder_steps c.2 rel')
        split
        · rename_i h' herr
          exact statOpened_error now hopen herr
        · rename_i fd st h' hok
          obtain ⟨hs, ha⟩ := statOpened_ok now hopen hok
          have hclear₂ := (hclear'.aside (openUnder_aside c.2 rel')).aside ha
          exact hs.trans (serveOpened_steps now useCache rel' fd st hclear₂)

theorem servePath_steps (useCache : Bool) (decoded rel redir : List UInt8) (hclear : Clear h) :
    Steps h none (h.servePath useCache decoded rel redir now) none := by
  unfold servePath
  extract_lets c
  obtain ⟨hlookup, hmiss⟩ := lookup_steps now useCache rel hclear
  split
  · exact hlookup
  · rename_i hfound
    have hclear' := hmiss (by simpa using hfound)
    have hopen := hlookup.trans (openUnder_steps c.2 rel)
    split
    · rename_i h' herr
      exact statOpened_error now hopen herr
    · rename_i fd st h' hok
      obtain ⟨hs, ha⟩ := statOpened_ok now hopen hok
      have hclear₂ := (hclear'.aside (openUnder_aside c.2 rel)).aside ha
      split
      · exact (hs.trans (close_steps h' fd)).trans
          (serveIndex_steps now useCache decoded rel redir hclear₂)
      · exact hs.trans (serveOpened_steps now useCache rel fd st hclear₂)

/-- What `static_serve` needs of the arena leaves room for a head. -/
theorem bumpTwice_clear {h₁ h₂ : Handler} (hbump : h.bumpAlloc STATIC_PATH_MAX = some h₁)
    (hbump₂ : h₁.bumpAlloc STATIC_PATH_MAX = some h₂) (hnone : h.hc.fileFd = none)
    (harena : h.arena = 0) : Clear h₂ := by
  unfold bumpAlloc at hbump hbump₂
  split at hbump
  · cases hbump
  split at hbump₂
  · cases hbump₂
  rw [← Option.some.inj hbump₂, ← Option.some.inj hbump]
  refine ⟨hnone, ?_⟩
  show h.arena + STATIC_PATH_MAX + STATIC_PATH_MAX + STATIC_HDR_SIZE ≤ TINY_BUMP_SIZE
  rw [harena]
  decide

variable (h)

/-- `static_serve`, for a connection without a file whose arena is empty. -/
theorem staticServe_steps (allowDotfiles : Bool) (dirFd : Option Nat) (useCache : Bool)
    (url : List UInt8) (urlLen : UInt16) (redir : List UInt8) (hnone : h.hc.fileFd = none)
    (harena : h.arena = 0) :
    Steps h none (staticServe allowDotfiles h dirFd useCache url urlLen redir now) none := by
  unfold staticServe
  split
  · exact armKeepable_steps h 405 now none _ _
  split
  · exact armClose_steps h 500 now none _
  split
  · exact armClose_steps h 500 now none _
  rename_i h₁ hbump
  have hs₁ := bumpAlloc_steps h none hbump
  split
  · exact hs₁.trans (armClose_steps h₁ 500 now none _)
  rename_i h₂ hbump₂
  have hs₂ := hs₁.trans (bumpAlloc_steps h₁ none hbump₂)
  have hclear := bumpTwice_clear hbump hbump₂ hnone harena
  split
  · exact hs₂.trans (armClose_steps h₂ 400 now none _)
  split
  · exact hs₂.trans (armKeepable_steps h₂ 404 now none _ _)
  · exact hs₂.trans (servePath_steps now useCache _ _ redir hclear)

theorem staticBeginFile_steps (path : List UInt8) (hnone : h.hc.fileFd = none) :
    Steps h none (h.staticBeginFile path now) none := by
  unfold staticBeginFile
  split
  · exact armKeepable_steps h 405 now none _ _
  split
  · exact armClose_steps h 500 now none _
  have hopen := openFile_steps h path
  split
  · rename_i h' herr
    exact statOpened_error now hopen herr
  · rename_i fd st h' hok
    obtain ⟨hs, ha⟩ := statOpened_ok now hopen hok
    split
    · exact (hs.trans (close_steps h' fd)).trans (armKeepable_steps _ 403 now none _ _)
    · refine hs.trans (armRegular_own h' now st.size _ ?_)
      rw [ha.hc]
      exact hnone

end Serve

/-! ## Sending -/

section Send

variable (h)

theorem finishFile_steps : Steps h none h.finishFile.2 none :=
  (cork_steps h false none).trans (releaseFile_steps (by rfl) (by rfl) none)

theorem sendFile_steps : Steps h none h.sendFile.2 none := by
  unfold sendFile
  extract_lets r src disk h'
  have hsend : Steps h none h' none := .same rfl id rfl fun _ _ => rfl
  split
  · exact hsend
  · exact hsend
  · exact hsend.trans (finishFile_steps h')

theorem staticOnWrite_steps : Steps h none h.staticOnWrite.2 none := by
  unfold staticOnWrite
  split
  · extract_lets r src h'
    have hsend : Steps h none h' none := .same rfl id rfl fun _ _ => rfl
    split
    · exact hsend
    · exact hsend
    · split
      · exact hsend.trans (finishFile_steps h')
      · have hphase : Steps h' none { h' with hc := { h'.hc with phase := .sendfile } } none :=
          .same rfl id rfl fun _ _ => rfl
        exact (hsend.trans hphase).trans (sendFile_steps _)
  · exact sendFile_steps h

theorem httpConnOnWrite_steps (now : Nat) : Steps h none (h.httpConnOnWrite now).2 none := by
  unfold httpConnOnWrite
  split
  · exact .refl h none
  · extract_lets src h'
    have htouch : Steps h none h' none := .same rfl id rfl fun _ _ => rfl
    split
    · exact .same rfl id rfl fun _ _ => rfl
    · exact htouch.trans (staticOnWrite_steps h')
    · exact htouch.trans (staticOnWrite_steps h')
    · exact htouch

/-- `http_conn_cleanup`, whatever becomes of the connection but without its file. -/
theorem httpConnCleanup_steps : Steps h none h.httpConnCleanup none := by
  have hdrop : Steps h none
      { h.releaseFile with hc := { h.releaseFile.hc with fileFd := none, fileOwned := true } } none :=
    releaseFile_steps (by rfl) (by rfl) none
  unfold httpConnCleanup
  extract_lets h₁ src h₂
  split
  · exact hdrop
  · rename_i fd hfd
    split
    · refine hdrop.trans ?_
      exact .quiet (cork_quiet fd false _) rfl id rfl fun _ _ => rfl
    · exact hdrop

end Send

end Handler

end TinyServer.Static
