import TinyServer.Static.Tree

/-!
# What leaves the table of open files as it was filled

Only a lookup and a store fill entries of the table. An answer for a mount or for a single
file does not ask it, and everything else gives a descriptor back at most. So a table that
was filled from a tree stays so.
-/

set_option autoImplicit false

namespace TinyServer.Static

open TinyServer.Http TinyServer.Net

namespace Handler

/-! ## The end of an answer -/

section Ends

variable {h : Handler} {T : Tree}

theorem releaseFile_agrees (hagrees : T.Agrees h.cache) : T.Agrees h.releaseFile.cache := by
  rw [releaseFile]
  split
  · exact hagrees
  · split
    · exact hagrees
    · exact hagrees.release _

theorem finishFile_agrees (hagrees : T.Agrees h.cache) : T.Agrees h.finishFile.2.cache :=
  releaseFile_agrees (h := h.cork false) hagrees

theorem sendFile_agrees (hagrees : T.Agrees h.cache) : T.Agrees h.sendFile.2.cache := by
  simp only [sendFile]
  split
  · exact hagrees
  · exact hagrees
  · exact finishFile_agrees hagrees

theorem staticOnWrite_agrees (hagrees : T.Agrees h.cache) : T.Agrees h.staticOnWrite.2.cache := by
  simp only [staticOnWrite]
  split
  · split
    · exact hagrees
    · exact hagrees
    · split
      · exact finishFile_agrees hagrees
      · exact sendFile_agrees hagrees
  · exact sendFile_agrees hagrees

theorem httpConnOnWrite_agrees (now : Nat) (hagrees : T.Agrees h.cache) :
    T.Agrees (h.httpConnOnWrite now).2.cache := by
  simp only [httpConnOnWrite]
  split
  · exact hagrees
  · split
    · exact hagrees
    · exact staticOnWrite_agrees hagrees
    · exact staticOnWrite_agrees hagrees
    · exact hagrees

theorem httpConnCleanup_agrees (hagrees : T.Agrees h.cache) : T.Agrees h.httpConnCleanup.cache := by
  have hrelease := releaseFile_agrees hagrees
  rw [httpConnCleanup]
  extract_lets k k'
  split
  · exact hrelease
  · split
    · exact hrelease
    · exact hrelease

end Ends

/-! ## Answers that do not ask it -/

section Unasked

variable {h : Handler} {now : Nat}

theorem statOpened_cache {o : OpenResult × Handler} (hfile : o.2.hc.fileFd = none) :
    (∀ k, statOpened o now = .error k → k.cache = o.2.cache) ∧
      ∀ fd st k, statOpened o now = .ok (fd, st, k) →
        k.cache = o.2.cache ∧ k.hc = o.2.hc ∧ k.arena = o.2.arena := by
  obtain ⟨r, k⟩ := o
  cases r with
  | opened fd =>
      cases hstat : k.fstat.1 with
      | none =>
          simp only [statOpened, hstat]
          refine ⟨fun k' he => ?_, fun _ _ _ he => by injection he⟩
          rw [← Except.error.inj he]
          exact @armClose_cache (k.fstat.2.close fd) now RESPONSE_500 500 hfile
      | some st =>
          simp only [statOpened, hstat]
          refine ⟨fun _ he => by injection he, fun fd' st' k' he => ?_⟩
          injection he with he
          obtain ⟨-, -, rfl⟩ : fd = fd' ∧ st = st' ∧ k.fstat.2 = k' := by
            simpa only [Prod.mk.injEq] using he
          exact ⟨rfl, rfl, rfl⟩
  | again | notFound | forbidden | failed =>
      refine ⟨fun k' he => ?_, fun _ _ _ he => by injection he⟩
      rw [← Except.error.inj he]
      exact armOpenError_cache _ now hfile

/-- The end of an answer from a descriptor that is not shared. -/
theorem armOwned_cache {rel : List UInt8} {fd : Nat} {st : Stat} (hfile : h.hc.fileFd = none)
    (hroom : STATIC_HDR_SIZE ≤ h.room) :
    (if st.kind ≠ .regular ∨ st.size < 0 then
        (h.close fd).armKeepable RESPONSE_403_CLOSE RESPONSE_403_KEEP 403 now
      else h.armRegular fd st.size (mimeFromPath rel) true now).cache = h.cache := by
  split
  · exact @armKeepable_cache (h.close fd) now _ _ 403 hfile
  · exact armRegular_cache rel fd st.size true hroom

/-- `static_begin_file` does not ask the table. -/
theorem staticBeginFile_cache (path : List UInt8) (harena : h.arena = 0)
    (hfile : h.hc.fileFd = none) : (h.staticBeginFile path now).cache = h.cache := by
  have hroom : STATIC_HDR_SIZE ≤ h.room := by
    rw [room, harena]
    decide
  obtain ⟨herror, hok⟩ := @statOpened_cache now (h.openFile path) hfile
  rw [staticBeginFile]
  split
  · exact armKeepable_cache _ _ _ hfile
  split
  · exact armClose_cache _ _ hfile
  cases hr : statOpened (h.openFile path) now with
  | error k => exact herror k hr
  | ok r =>
      obtain ⟨fd, st, k⟩ := r
      obtain ⟨hcache, hhc, ha⟩ := hok fd st k hr
      have hfile' : k.hc.fileFd = none := by
        rw [hhc]
        exact hfile
      have hroom' : STATIC_HDR_SIZE ≤ k.room := by
        rw [room, ha]
        exact hroom
      exact (armOwned_cache hfile' hroom').trans hcache

/-- A lookup that does not ask the table. -/
theorem fetch_cache (rel : List UInt8) (hfile : h.hc.fileFd = none) :
    (∀ k, h.fetch false rel now = .error k → k.cache = h.cache) ∧
      ∀ fd st k, h.fetch false rel now = .ok (fd, st, k) →
        k.cache = h.cache ∧ k.hc = h.hc ∧ k.arena = h.arena := by
  obtain ⟨o, ho⟩ : ∃ o, o = h.openUnder rel := ⟨_, rfl⟩
  have haside : Aside h o.2 := by
    rw [ho]
    exact openUnder_aside h rel
  have hcache : o.2.cache = h.cache := openUnder_eq_cache (ho.symm.trans (Prod.mk.eta).symm)
  have hfile' : o.2.hc.fileFd = none := by rw [haside.hc, hfile]
  obtain ⟨herror, hok⟩ := @statOpened_cache now o hfile'
  have hfetch : h.fetch false rel now = statOpened o now := by rw [ho]; rfl
  rw [hfetch]
  refine ⟨fun k hk => (herror k hk).trans hcache, fun fd st k hk => ?_⟩
  obtain ⟨hc, hhc, ha⟩ := hok fd st k hk
  exact ⟨hc.trans hcache, hhc.trans haside.hc, ha.trans haside.arena⟩

theorem serveIndex_cache (decoded rel redir : List UInt8) (hfile : h.hc.fileFd = none)
    (hroom : STATIC_HDR_SIZE ≤ h.room) :
    (h.serveIndex false decoded rel redir now).cache = h.cache := by
  rw [serveIndex_eq]
  split
  · exact armDirRedirect_cache _ hfile
  split
  · exact armKeepable_cache _ _ _ hfile
  obtain ⟨herror, hok⟩ := @fetch_cache h now (rel ++ cstr "/index.html") hfile
  cases hr : h.fetch false (rel ++ cstr "/index.html") now with
  | error k => exact herror k hr
  | ok r =>
      obtain ⟨fd, st, k⟩ := r
      obtain ⟨hcache, hhc, ha⟩ := hok fd st k hr
      have hfile' : k.hc.fileFd = none := by rw [hhc, hfile]
      have hroom' : STATIC_HDR_SIZE ≤ k.room := by
        rw [room, ha]
        exact hroom
      exact (armOwned_cache hfile' hroom').trans hcache

theorem servePath_cache (decoded rel redir : List UInt8) (hfile : h.hc.fileFd = none)
    (hroom : STATIC_HDR_SIZE ≤ h.room) :
    (h.servePath false decoded rel redir now).cache = h.cache := by
  rw [servePath_eq]
  obtain ⟨herror, hok⟩ := @fetch_cache h now rel hfile
  cases hr : h.fetch false rel now with
  | error k => exact herror k hr
  | ok r =>
      obtain ⟨fd, st, k⟩ := r
      obtain ⟨hcache, hhc, ha⟩ := hok fd st k hr
      have hfile' : k.hc.fileFd = none := by rw [hhc, hfile]
      have hroom' : STATIC_HDR_SIZE ≤ k.room := by
        rw [room, ha]
        exact hroom
      dsimp only
      split
      · exact (@serveIndex_cache (k.close fd) now decoded rel redir hfile' hroom').trans hcache
      · exact (armOwned_cache hfile' hroom').trans hcache

/-- `static_serve` for a mount does not ask the table. -/
theorem staticServe_cache (allowDotfiles : Bool) (dirFd : Option Nat) (url : List UInt8)
    (urlLen : UInt16) (redir : List UInt8) (harena : h.arena = 0) (hfile : h.hc.fileFd = none) :
    (staticServe allowDotfiles h dirFd false url urlLen redir now).cache = h.cache := by
  by_cases hmethod : h.hc.req.method ≠ .get ∧ h.hc.req.method ≠ .head
  · rw [staticServe, if_pos hmethod]
    exact armKeepable_cache _ _ _ hfile
  by_cases hdir : dirFd = none
  · rw [staticServe, if_neg hmethod, if_pos hdir]
    exact armClose_cache _ _ hfile
  rw [staticServe_eq allowDotfiles dirFd false url urlLen redir now harena (by tauto) hdir]
  extract_lets k
  have hroom : STATIC_HDR_SIZE ≤ k.room := by
    simp only [k, room]
    decide
  split
  · exact @armClose_cache k now _ 400 hfile
  split
  · exact @armKeepable_cache k now _ _ 404 hfile
  · exact @servePath_cache k now _ _ redir hfile hroom

end Unasked

end Handler

end TinyServer.Static
