import TinyServer.Lib.Probing
import TinyServer.Lib.Run
import TinyServer.Static.Filled

/-!
# The table of open files as a finite map (`static.c`)

`file_cache_find` and `file_cache_store` are the two probes of a table with linear probing,
by the hash of the path. Whatever sequence of finds, rechecks, stores and clears a worker
runs through, the table stays chained, so that it gives for each path what was last put in
for it (`fileCache_runs`). `static_serve` makes such sequences (`servePath_ops`).
-/

set_option autoImplicit false

namespace TinyServer.Static

open TinyServer.Http TinyServer.Net TinyServer.Lib
open Probing (Slot Chained)

/-! ## The probes -/

/-- An entry, by its path. -/
def tableSlot : CacheSlot → Slot (List UInt8) CachedFile
  | .empty => .empty
  | .tombstone => .tombstone
  | .live e => .live e.path e

/-- The cache as a table with open addressing. -/
def FileCache.table (c : FileCache) : Fin FILE_CACHE_SLOTS → Slot (List UInt8) CachedFile :=
  tableSlot ∘ c.entries

/-- Where the probe for a path starts. -/
def pathStartSlot (path : List UInt8) : Fin FILE_CACHE_SLOTS := probeStart (pathHash path)

/-- What the table keeps between two calls. -/
structure FileCache.Sound (c : FileCache) : Prop where
  chained : Chained pathStartSlot c.table
  named : ∀ i e, c.entries i = .live e →
    e.hash = pathHash e.path ∧ e.path ≠ [] ∧ e.path.length < FILE_CACHE_PATH
  unready : c.ready = false → ∀ i e, c.entries i ≠ .live e

section Probes

variable {c : FileCache} {path : List UInt8} {i : Fin FILE_CACHE_SLOTS} {e : CachedFile}

theorem FileCache.table_live {key : List UInt8} :
    c.table i = .live key e ↔ c.entries i = .live e ∧ e.path = key := by
  rw [table, Function.comp_apply]
  cases c.entries i with
  | empty => exact ⟨nofun, nofun⟩
  | tombstone => exact ⟨nofun, nofun⟩
  | live f =>
      rw [tableSlot, Slot.live.injEq, CacheSlot.live.injEq]
      constructor
      · rintro ⟨rfl, rfl⟩
        exact ⟨rfl, rfl⟩
      · rintro ⟨rfl, rfl⟩
        exact ⟨rfl, rfl⟩

theorem FileCache.table_isFree : (c.table i).IsFree ↔ ∀ e, c.entries i ≠ .live e := by
  constructor
  · intro hfree e he
    exact hfree _ _ (table_live.2 ⟨he, rfl⟩)
  · intro hno key e he
    exact hno e (table_live.1 he).1

/-- The hash tells no entry from another that its path does not. -/
theorem findLoop_eq (hnamed : ∀ i e, c.entries i = .live e → e.hash = pathHash e.path) (n : Nat) :
    ∀ i, findLoop c (pathHash path) path n i = Probing.find c.table path n i := by
  induction n with
  | zero => exact fun _ => rfl
  | succ n ih =>
      intro i
      rw [findLoop, Probing.find, FileCache.table, Function.comp_apply]
      cases hi : c.entries i with
      | empty => rfl
      | tombstone => exact ih _
      | live e =>
          have hsame : (e.hash = pathHash path ∧ e.path = path) ↔ e.path = path :=
            and_iff_right_of_imp fun heq => heq ▸ hnamed i e hi
          simp only [tableSlot, hsame]
          split
          · rfl
          · exact ih _

theorem storeLoop_eq (n : Nat) : ∀ i reuse, storeLoop c n i reuse = Probing.free c.table n i reuse := by
  induction n with
  | zero => exact fun _ _ => rfl
  | succ n ih =>
      intro i reuse
      rw [storeLoop, Probing.free, FileCache.table, Function.comp_apply]
      cases c.entries i with
      | empty => rfl
      | tombstone => exact ih _ _
      | live e => exact ih _ _

/-! ## A sound table -/

theorem FileCache.Sound.fresh : FileCache.fresh.Sound :=
  ⟨.empty fun _ => table_isFree.2 fun _ => nofun, fun _ _ => nofun, fun _ _ _ => nofun⟩

theorem FileCache.Sound.init_live (h : c.Sound) : c.init.entries i = .live e ↔ c.entries i = .live e := by
  unfold init
  cases hready : c.ready with
  | true => exact Iff.rfl
  | false => exact ⟨nofun, fun he => absurd he (h.unready hready i e)⟩

theorem FileCache.Sound.init (h : c.Sound) : c.init.Sound := by
  unfold FileCache.init
  cases hready : c.ready with
  | true => exact h
  | false => exact ⟨.empty fun _ => table_isFree.2 fun _ => nofun, fun _ _ => nofun, nofun⟩

/-- The table finds exactly its live entries. -/
theorem FileCache.Sound.find_iff (h : c.Sound) :
    (fileCacheFind c path).2 = some (i, e) ↔ c.entries i = .live e ∧ e.path = path := by
  rw [fileCacheFind]
  dsimp only
  split
  · rename_i hlen
    refine ⟨nofun, ?_⟩
    rintro ⟨hi, rfl⟩
    obtain ⟨-, hne, hshort⟩ := h.named i e hi
    rcases hlen with hnil | hlong
    · exact absurd (List.length_eq_zero_iff.1 hnil) hne
    · exact absurd hshort (Nat.not_lt.2 hlong)
  · dsimp only
    rw [findLoop_eq fun i e he => (h.init.named i e he).1, ← h.init_live]
    exact h.init.chained.find_iff.trans table_live

theorem FileCache.Sound.find_none (h : c.Sound) :
    (fileCacheFind c path).2 = none ↔ ∀ i e, c.entries i = .live e → e.path ≠ path := by
  rw [Option.eq_none_iff_forall_not_mem]
  constructor
  · intro hnone i e hi hpath
    exact hnone (i, e) (h.find_iff.2 ⟨hi, hpath⟩)
  · rintro hall ⟨i, e⟩ hmem
    obtain ⟨hi, hpath⟩ := h.find_iff.1 hmem
    exact hall i e hi hpath

/-- A store after a miss: it is refused for a long path or a full table; else it fills a
slot that holds no entry. -/
theorem FileCache.Sound.store_spec (h : c.Sound) (hne : path ≠ [])
    (hmiss : (fileCacheFind c path).2 = none) (fd : Nat) (st : Stat) (mime : List UInt8) (now : Nat) :
    (fileCacheStore c path fd st mime now = (c.init, none) ∧
        (FILE_CACHE_PATH ≤ path.length ∨ ∀ i, ∃ e, c.entries i = .live e)) ∨
      ∃ i, fileCacheStore c path fd st mime now
          = (c.init.setEntry i (.live (fillEntry (pathHash path) path fd st mime now)), some i) ∧
        path.length < FILE_CACHE_PATH ∧ (∀ e, c.entries i ≠ .live e) ∧
        (c.init.setEntry i (.live (fillEntry (pathHash path) path fd st mime now))).Sound := by
  rw [fileCacheStore]
  dsimp only
  by_cases hlen : path.length = 0 ∨ FILE_CACHE_PATH ≤ path.length
  · rw [if_pos hlen]
    exact .inl ⟨rfl, .inl (hlen.resolve_left fun hnil => hne (List.length_eq_zero_iff.1 hnil))⟩
  rw [if_neg hlen, storeLoop_eq]
  cases hfree : Probing.free c.init.table FILE_CACHE_SLOTS (probeStart (pathHash path)) none with
  | none =>
      refine .inl ⟨rfl, .inr fun i => ?_⟩
      have hlive := Probing.free_eq_none.1 hfree i
      rw [table_isFree, not_forall_not] at hlive
      obtain ⟨e, he⟩ := hlive
      exact ⟨e, h.init_live.1 he⟩
  | some i =>
      have hshort := Nat.lt_of_not_le (not_or.1 hlen).2
      have hnone := table_isFree.1 (Probing.free_isFree hfree)
      refine .inr ⟨i, rfl, hshort, fun e he => hnone e (h.init_live.2 he), ?_, ?_, ?_⟩
      · have hmiss' : ∀ j y, c.init.table j ≠ .live path y := by
          intro j y hj
          obtain ⟨hj, hpath⟩ := table_live.1 hj
          exact h.find_none.1 hmiss j y (h.init_live.1 hj) hpath
        have hinsert := h.init.chained.insert (x := fillEntry (pathHash path) path fd st mime now)
          hmiss' hfree
        rw [table, FileCache.setEntry, Function.comp_update]
        exact hinsert
      · intro j e hj
        rw [FileCache.setEntry] at hj
        dsimp only at hj
        rw [Function.update_apply] at hj
        split at hj
        · cases hj
          exact ⟨rfl, hne, hshort⟩
        · exact h.init.named j e hj
      · intro hready
        exact absurd ((init_ready c).symm.trans hready) (by rintro ⟨⟩)

/-- A live entry changes, but for its path, or is dropped. -/
theorem FileCache.Sound.change (h : c.Sound) (hi : c.entries i = .live e) {c' : FileCache} {s : CacheSlot}
    (hready : c'.ready = c.ready) (hentries : c'.entries = Function.update c.entries i s)
    (hs : s = .tombstone ∨ ∃ e', s = .live e' ∧ e'.path = e.path ∧ e'.hash = e.hash) : c'.Sound := by
  constructor
  · rw [table, hentries, Function.comp_update]
    refine h.chained.update (table_live.2 ⟨hi, rfl⟩) ?_
    rcases hs with rfl | ⟨e', rfl, hpath, -⟩
    · exact .inl rfl
    · exact .inr ⟨e', by rw [tableSlot, hpath]⟩
  · intro j f hj
    rw [hentries, Function.update_apply] at hj
    split at hj
    · rcases hs with rfl | ⟨e', rfl, hpath, hhash⟩
      · cases hj
      · cases hj
        rw [hhash, hpath]
        exact h.named i e hi
    · exact h.named j f hj
  · intro hnot
    exact absurd hi (h.unready (hready ▸ hnot) i e)

theorem FileCache.Sound.congr (h : c.Sound) {c' : FileCache} (hready : c'.ready = c.ready)
    (hentries : c'.entries = c.entries) : c'.Sound := by
  have htable : c'.table = c.table := congrArg (tableSlot ∘ ·) hentries
  refine ⟨htable ▸ h.chained, ?_, ?_⟩
  · rw [hentries]
    exact h.named
  · rw [hentries, hready]
    exact h.unready

end Probes

/-! ## What each call does to the entries -/

section Calls

variable {h : Handler} {i : Fin FILE_CACHE_SLOTS} {e : CachedFile}

theorem retireFd_table (h : Handler) (fd uses : Nat) :
    (h.retireFd fd uses).cache.entries = h.cache.entries ∧
      (h.retireFd fd uses).cache.ready = h.cache.ready := by
  rw [Handler.retireFd]
  split
  · exact ⟨rfl, rfl⟩
  · split
    · exact ⟨rfl, rfl⟩
    · exact ⟨rfl, rfl⟩

theorem tombstone_table (h : Handler) (i : Fin FILE_CACHE_SLOTS) (e : CachedFile) :
    (h.tombstone i e).cache.entries = Function.update h.cache.entries i .tombstone ∧
      (h.tombstone i e).cache.ready = h.cache.ready :=
  retireFd_table _ _ _

/-- A recheck keeps or refreshes its entry, or drops it. -/
theorem fileCacheRecheck_table (hi : h.cache.entries i = .live e) (now : Nat) :
    (h.fileCacheRecheck i e now).2.cache.ready = h.cache.ready ∧
      (((h.fileCacheRecheck i e now).1 = none ∧
          (h.fileCacheRecheck i e now).2.cache.entries = Function.update h.cache.entries i .tombstone) ∨
        ∃ e', (h.fileCacheRecheck i e now).1 = some e' ∧ e'.path = e.path ∧ e'.hash = e.hash ∧
          (h.fileCacheRecheck i e now).2.cache.entries
            = Function.update h.cache.entries i (.live e')) := by
  rw [Handler.fileCacheRecheck]
  split
  · exact ⟨rfl, .inr ⟨e, rfl, rfl, rfl, by rw [← hi, Function.update_eq_self]⟩⟩
  extract_lets s e' src o k
  have hstat : s.2.cache = h.cache := rfl
  have hopen : o.2.cache = h.cache := Handler.openLoop_cache e.path _ s.2
  have hgone : ∀ k : Handler, k.cache = h.cache → (k.tombstone i e).cache.ready = h.cache.ready ∧
      (k.tombstone i e).cache.entries = Function.update h.cache.entries i .tombstone := by
    intro k hk
    obtain ⟨hentries, hready⟩ := tombstone_table k i e
    rw [hk] at hentries hready
    exact ⟨hready, hentries⟩
  split
  · exact ⟨(hgone _ hstat).1, .inl ⟨rfl, (hgone _ hstat).2⟩⟩
  · split
    · exact ⟨(hgone _ hstat).1, .inl ⟨rfl, (hgone _ hstat).2⟩⟩
    · split
      · exact ⟨rfl, .inr ⟨_, rfl, rfl, rfl, rfl⟩⟩
      · split
        · obtain ⟨hentries, hready⟩ := retireFd_table o.2 e.fd e.uses
          rw [hopen] at hentries hready
          refine ⟨hready, .inr ⟨_, rfl, rfl, rfl, ?_⟩⟩
          show Function.update (o.2.retireFd e.fd e.uses).cache.entries i _ = _
          rw [hentries]
        · exact ⟨(hgone _ hopen).1, .inl ⟨rfl, (hgone _ hopen).2⟩⟩

/-- An entry with one more use, where the count has room. -/
def held (e : CachedFile) : CachedFile :=
  if e.uses < UINT16_MAX then { e with uses := e.uses + 1 } else e

theorem held_path (e : CachedFile) : (held e).path = e.path ∧ (held e).hash = e.hash := by
  rw [held]
  split
  · exact ⟨rfl, rfl⟩
  · exact ⟨rfl, rfl⟩

theorem fileCacheHold_table {c : FileCache} (hi : c.entries i = .live e) :
    (fileCacheHold c i).entries = Function.update c.entries i (.live (held e)) ∧
      (fileCacheHold c i).ready = c.ready := by
  rw [fileCacheHold, hi, held]
  dsimp only
  split
  · exact ⟨rfl, rfl⟩
  · exact ⟨by rw [← hi, Function.update_eq_self], rfl⟩

/-- The giving back of a descriptor counts down the entry that has it. -/
theorem staticCacheRelease_table (h : Handler) (fd : Nat) :
    (h.staticCacheRelease fd).cache.ready = h.cache.ready ∧
      (h.staticCacheRelease fd).cache.entries =
        if h.cache.ready then
          match Handler.cachedAt h.cache fd with
          | some (i, e) => Function.update h.cache.entries i (.live { e with uses := e.uses - 1 })
          | none => h.cache.entries
        else h.cache.entries := by
  rw [Handler.staticCacheRelease]
  cases hready : h.cache.ready with
  | false => exact ⟨hready, rfl⟩
  | true =>
      cases Handler.cachedAt h.cache fd with
      | some r => exact ⟨hready, rfl⟩
      | none =>
          cases Handler.retiredAt h.cache fd with
          | none => exact ⟨hready, rfl⟩
          | some r =>
              obtain ⟨k, r⟩ := r
              by_cases huses : r.uses - 1 = 0
              · simp only [huses]
                exact ⟨hready, rfl⟩
              · simp only [huses]
                exact ⟨hready, rfl⟩

/-- A loop that empties each entry it comes to. -/
theorem foldl_entries_none {f : Handler → Fin FILE_CACHE_SLOTS → Handler}
    (hself : ∀ h k e, (f h k).cache.entries k ≠ .live e)
    (hkeep : ∀ h i k, i ≠ k → (f h k).cache.entries i = h.cache.entries i)
    (l : List (Fin FILE_CACHE_SLOTS)) : ∀ h : Handler,
      (∀ i e, i ∉ l → h.cache.entries i ≠ .live e) →
        ∀ i e, (l.foldl f h).cache.entries i ≠ .live e := by
  induction l with
  | nil => exact fun h hnone i e => hnone i e List.not_mem_nil
  | cons k l ih =>
      intro h hnone
      apply ih
      intro i e hi
      by_cases hik : i = k
      · rw [hik]
        exact hself h k e
      · rw [hkeep h i k hik]
        exact hnone i e fun hmem => (List.mem_cons.1 hmem).elim hik hi

theorem foldl_entries {f : Handler → Fin FILE_CACHE_RETIRED → Handler}
    (hf : ∀ h k, (f h k).cache.entries = h.cache.entries) (l : List (Fin FILE_CACHE_RETIRED)) :
    ∀ h : Handler, (l.foldl f h).cache.entries = h.cache.entries := by
  induction l with
  | nil => exact fun _ => rfl
  | cons k l ih => exact fun h => (ih _).trans (hf h k)

/-- Nothing is left in the table when it is cleared. -/
theorem staticCacheClear_table (h : Handler) (hunready : h.cache.ready = false →
    ∀ i e, h.cache.entries i ≠ .live e) :
    h.staticCacheClear.cache.ready = false ∧ ∀ i e, h.staticCacheClear.cache.entries i ≠ .live e := by
  rw [Handler.staticCacheClear]
  cases hready : h.cache.ready with
  | false => exact ⟨hready, hunready hready⟩
  | true =>
      rw [if_neg nofun]
      extract_lets h₁ h₂
      have hloop₁ : h₁ = List.foldl _ h (List.finRange FILE_CACHE_SLOTS) := rfl
      have hloop₂ : h₂ = List.foldl _ h₁ (List.finRange FILE_CACHE_RETIRED) := rfl
      clear_value h₂
      have hfirst : ∀ i e, h₁.cache.entries i ≠ .live e := by
        rw [hloop₁]
        refine foldl_entries_none (fun h k e => ?_) (fun h i k hik => ?_) _ h
          fun i e hi => absurd (List.mem_finRange i) hi
        · split
          · exact fun hlive => nomatch (Function.update_self ..).symm.trans hlive
          · rename_i hno
            exact hno e
        · split
          · exact Function.update_of_ne hik _ _
          · rfl
      clear_value h₁
      have hsecond : h₂.cache.entries = h₁.cache.entries := by
        rw [hloop₂]
        refine foldl_entries (fun h k => ?_) _ h₁
        split
        · rfl
        · rfl
      refine ⟨rfl, fun i e => ?_⟩
      show h₂.cache.entries i ≠ _
      rw [hsecond]
      exact hfirst i e

end Calls

/-! ## What was put in -/

/-- What a call did to the entry of a path, with the entry. -/
inductive TableEvent where
  | stored (path : List UInt8) (e : CachedFile)
  | changed (path : List UInt8) (e : CachedFile)
  | dropped (path : List UInt8)
  | cleared

/-- The entry of a path after these events, the last one first. A change makes no entry. -/
def listed (path : List UInt8) : List TableEvent → Option CachedFile
  | [] => none
  | .stored p e :: log => if p = path then some e else listed path log
  | .changed p e :: log => if p = path then (listed path log).map fun _ => e else listed path log
  | .dropped p :: log => if p = path then none else listed path log
  | .cleared :: _ => none

/-- The path was stored and not dropped since. -/
def StoredSince (path : List UInt8) (log : List TableEvent) : Prop :=
  ∃ later e earlier, log = later ++ .stored path e :: earlier ∧
    .dropped path ∉ later ∧ .cleared ∉ later

theorem StoredSince.cons {path : List UInt8} {log : List TableEvent} {ev : TableEvent}
    (hev : ev ≠ .dropped path ∧ ev ≠ .cleared) (h : StoredSince path log) :
    StoredSince path (ev :: log) := by
  obtain ⟨later, e, earlier, rfl, hdrop, hclear⟩ := h
  exact ⟨ev :: later, e, earlier, rfl, fun hm => (List.mem_cons.1 hm).elim hev.1.symm hdrop,
    fun hm => (List.mem_cons.1 hm).elim hev.2.symm hclear⟩

/-- An event that is not the storing of the path was preceded by it. -/
theorem StoredSince.of_cons {path : List UInt8} {log : List TableEvent} {ev : TableEvent}
    (hev : ∀ e, ev ≠ .stored path e) (h : StoredSince path (ev :: log)) :
    StoredSince path log ∧ ev ≠ .dropped path ∧ ev ≠ .cleared := by
  obtain ⟨later, e, earlier, heq, hdrop, hclear⟩ := h
  cases later with
  | nil => exact absurd (List.cons.inj heq).1 (hev e)
  | cons ev' later =>
      obtain ⟨rfl, rfl⟩ := List.cons.inj heq
      rw [List.mem_cons, not_or] at hdrop hclear
      exact ⟨⟨later, e, earlier, rfl, hdrop.2, hclear.2⟩, Ne.symm hdrop.1, Ne.symm hclear.1⟩

theorem listed_isSome_iff {path : List UInt8} {log : List TableEvent} :
    listed path log ≠ none ↔ StoredSince path log := by
  induction log with
  | nil =>
      refine ⟨fun h => absurd rfl h, ?_⟩
      rintro ⟨later, e, earlier, heq, -⟩
      exact absurd heq.symm (List.append_ne_nil_of_right_ne_nil _ (List.cons_ne_nil _ _))
  | cons ev log ih =>
      cases ev with
      | stored p e =>
          rw [listed]
          split
          · rename_i hp
            rw [hp]
            exact ⟨fun _ => ⟨[], e, log, rfl, List.not_mem_nil, List.not_mem_nil⟩, fun _ => nofun⟩
          · rename_i hp
            rw [ih]
            refine ⟨.cons ⟨nofun, nofun⟩, fun h => (StoredSince.of_cons (fun e' heq => ?_) h).1⟩
            cases heq
            exact hp rfl
      | changed p e =>
          have hmap : listed path (.changed p e :: log) ≠ none ↔ listed path log ≠ none := by
            rw [listed]
            split
            · rw [ne_eq, Option.map_eq_none_iff]
            · exact Iff.rfl
          have hother : ∀ e', TableEvent.changed p e ≠ .stored path e' := fun _ => nofun
          rw [hmap, ih]
          exact ⟨.cons ⟨nofun, nofun⟩, fun h => (StoredSince.of_cons hother h).1⟩
      | dropped p =>
          have hother : ∀ e', TableEvent.dropped p ≠ .stored path e' := fun _ => nofun
          rw [listed]
          split
          · rename_i hp
            refine ⟨fun h => absurd rfl h, fun h => ?_⟩
            rw [hp] at h hother
            exact absurd rfl (StoredSince.of_cons hother h).2.1
          · rename_i hp
            rw [ih]
            refine ⟨.cons ⟨fun heq => ?_, nofun⟩, fun h => (StoredSince.of_cons hother h).1⟩
            cases heq
            exact hp rfl
      | cleared =>
          have hother : ∀ e', TableEvent.cleared ≠ .stored path e' := fun _ => nofun
          exact ⟨fun h => absurd rfl h, fun h => absurd rfl (StoredSince.of_cons hother h).2.2⟩

/-! ## Sequences of calls -/

/-- A table, with what was done to its entries. -/
structure Logged where
  cache : FileCache
  log : List TableEvent

/-- A call on the table, with everything else of the worker at the time (`env`). -/
inductive TableOp where
  | find (path : List UInt8)
  | recheck (path : List UInt8) (now : Nat) (env : Handler)
  | hold (path : List UInt8)
  | store (path : List UInt8) (fd : Nat) (st : Stat) (mime : List UInt8) (now : Nat)
  | release (fd : Nat) (env : Handler)
  | clear (env : Handler)

/-- The calls as `static_serve` makes them: rechecks and holds of what a find has given,
and stores of a path after a miss. -/
def Logged.step (s : Logged) : TableOp → Option Logged
  | .find path => some { s with cache := (fileCacheFind s.cache path).1 }
  | .recheck path now env =>
      let f := fileCacheFind s.cache path
      match f.2 with
      | none => none
      | some (i, e) =>
          let r := { env with cache := f.1 }.fileCacheRecheck i e now
          match r.1 with
          | none => some ⟨r.2.cache, .dropped path :: s.log⟩
          | some e => some ⟨r.2.cache, .changed path e :: s.log⟩
  | .hold path =>
      let f := fileCacheFind s.cache path
      match f.2 with
      | none => none
      | some (i, e) => some ⟨fileCacheHold f.1 i, .changed path (held e) :: s.log⟩
  | .store path fd st mime now =>
      if path = [] ∨ (fileCacheFind s.cache path).2.isSome then none
      else
        let r := fileCacheStore s.cache path fd st mime now
        match r.2 with
        | none => some { s with cache := r.1 }
        | some _ => some ⟨r.1, .stored path (fillEntry (pathHash path) path fd st mime now) :: s.log⟩
  | .release fd env =>
      let h := { env with cache := s.cache }.staticCacheRelease fd
      match Handler.cachedAt s.cache fd with
      | none => some { s with cache := h.cache }
      | some (_, e) => some ⟨h.cache, .changed e.path { e with uses := e.uses - 1 } :: s.log⟩
  | .clear env => some ⟨{ env with cache := s.cache }.staticCacheClear.cache, .cleared :: s.log⟩

/-- The table is sound, and its live entries are those of the log. -/
structure Logged.Inv (s : Logged) : Prop where
  sound : s.cache.Sound
  shows : ∀ path e, listed path s.log = some e ↔ ∃ i, s.cache.entries i = .live e ∧ e.path = path

section Steps

variable {s s' : Logged} {i : Fin FILE_CACHE_SLOTS} {e : CachedFile} {c : FileCache}

/-- The live entries after the entry `e` at `i` has made place for `slot`. -/
theorem Logged.live_update (hi : s.cache.entries i = .live e) {slot : CacheSlot}
    (hentries : c.entries = Function.update s.cache.entries i slot) (path : List UInt8)
    (hpath : path ≠ e.path) (hslot : ∀ e', slot = .live e' → e'.path = e.path) {f : CachedFile} :
    (∃ j, c.entries j = .live f ∧ f.path = path) ↔ ∃ j, s.cache.entries j = .live f ∧ f.path = path := by
  constructor
  · rintro ⟨j, hj, hf⟩
    rw [hentries, Function.update_apply] at hj
    split at hj
    · exact absurd (hf.symm.trans (hslot f hj)) hpath
    · exact ⟨j, hj, hf⟩
  · rintro ⟨j, hj, hf⟩
    refine ⟨j, ?_, hf⟩
    rw [hentries, Function.update_of_ne]
    · exact hj
    · rintro rfl
      rw [hi] at hj
      cases hj
      exact hpath hf.symm

/-- A live entry changes. -/
theorem Logged.Inv.change (h : s.Inv) (hi : s.cache.entries i = .live e) {e' : CachedFile}
    (hready : c.ready = s.cache.ready) (hentries : c.entries = Function.update s.cache.entries i (.live e'))
    (hpath : e'.path = e.path) (hhash : e'.hash = e.hash) :
    Logged.Inv ⟨c, .changed e.path e' :: s.log⟩ := by
  refine ⟨h.sound.change hi hready hentries (.inr ⟨e', rfl, hpath, hhash⟩), fun path f => ?_⟩
  rw [listed]
  split
  · rename_i hp
    have hlisted : listed path s.log = some e := (h.shows path e).2 ⟨i, hi, hp⟩
    rw [hlisted, Option.map_some, Option.some.injEq]
    constructor
    · rintro rfl
      exact ⟨i, by rw [hentries, Function.update_self], hpath.trans hp⟩
    · rintro ⟨j, hj, hf⟩
      rw [hentries, Function.update_apply] at hj
      split at hj
      · exact CacheSlot.live.inj hj
      · -- Two entries of one path are one.
        rename_i hne
        have hsame := h.sound.chained.once j i path f e (FileCache.table_live.2 ⟨hj, hf⟩)
          (FileCache.table_live.2 ⟨hi, hp⟩)
        exact absurd hsame hne
  · rename_i hp
    rw [h.shows, Logged.live_update hi hentries path (Ne.symm hp) (fun _ hs => CacheSlot.live.inj hs ▸ hpath)]

/-- A live entry is dropped. -/
theorem Logged.Inv.drop (h : s.Inv) (hi : s.cache.entries i = .live e)
    (hready : c.ready = s.cache.ready)
    (hentries : c.entries = Function.update s.cache.entries i .tombstone) :
    Logged.Inv ⟨c, .dropped e.path :: s.log⟩ := by
  refine ⟨h.sound.change hi hready hentries (.inl rfl), fun path f => ?_⟩
  rw [listed]
  split
  · rename_i hp
    refine ⟨nofun, ?_⟩
    rintro ⟨j, hj, hf⟩
    rw [hentries, Function.update_apply] at hj
    split at hj
    · cases hj
    · rename_i hne
      have hsame := h.sound.chained.once j i path f e (FileCache.table_live.2 ⟨hj, hf⟩)
        (FileCache.table_live.2 ⟨hi, hp⟩)
      exact absurd hsame hne
  · rename_i hp
    rw [h.shows, Logged.live_update hi hentries path (Ne.symm hp) nofun]

theorem Logged.Inv.congr (h : s.Inv) (hready : c.ready = s.cache.ready)
    (hentries : c.entries = s.cache.entries) : Logged.Inv ⟨c, s.log⟩ := by
  refine ⟨h.sound.congr hready hentries, fun path e => ?_⟩
  rw [hentries]
  exact h.shows path e

theorem Logged.Inv.init (h : s.Inv) : Logged.Inv ⟨s.cache.init, s.log⟩ := by
  refine ⟨h.sound.init, fun path e => ?_⟩
  simp only [h.shows, h.sound.init_live]

/-- The step lemma. -/
theorem Logged.Inv.step (h : s.Inv) {op : TableOp} (hstep : s.step op = some s') : s'.Inv := by
  cases op with
  | find path =>
      cases hstep
      rw [Handler.fileCacheFind_cache]
      exact h.init
  -- A recheck keeps the file, with what `fstatat` says, or drops it.
  | recheck path now env =>
      rw [Logged.step] at hstep
      dsimp only at hstep
      cases hfind : (fileCacheFind s.cache path).2 with
      | none =>
          rw [hfind] at hstep
          cases hstep
      | some f =>
          obtain ⟨i, e⟩ := f
          obtain ⟨hi, rfl⟩ := h.sound.find_iff.1 hfind
          rw [hfind, Handler.fileCacheFind_cache] at hstep
          dsimp only at hstep
          have hinit : s.cache.init.entries i = .live e := h.sound.init_live.2 hi
          obtain ⟨hready, hcase⟩ := fileCacheRecheck_table (h := { env with cache := s.cache.init }) hinit now
          rcases hcase with ⟨hgone, hentries⟩ | ⟨e', hkept, hpath, hhash, hentries⟩
          · rw [hgone] at hstep
            cases hstep
            exact h.init.drop hinit hready hentries
          · rw [hkept] at hstep
            cases hstep
            exact h.init.change hinit hready hentries hpath hhash
  -- A hold changes a count, so the file is found under its path as before.
  | hold path =>
      rw [Logged.step] at hstep
      cases hfind : (fileCacheFind s.cache path).2 with
      | none =>
          rw [hfind] at hstep
          cases hstep
      | some f =>
          obtain ⟨i, e⟩ := f
          obtain ⟨hi, rfl⟩ := h.sound.find_iff.1 hfind
          rw [hfind, Handler.fileCacheFind_cache] at hstep
          cases hstep
          have hinit : s.cache.init.entries i = .live e := h.sound.init_live.2 hi
          obtain ⟨hentries, hready⟩ := fileCacheHold_table hinit
          exact h.init.change hinit hready hentries (held_path e).1 (held_path e).2
  -- A store takes a free place; a path that is listed is not stored again.
  | store path fd st mime now =>
      rw [Logged.step] at hstep
      split at hstep
      · cases hstep
      · rename_i hguard
        rw [not_or, Bool.not_eq_true, Option.isSome_eq_false_iff, Option.isNone_iff_eq_none] at hguard
        obtain ⟨hne, hmiss⟩ := hguard
        rcases h.sound.store_spec hne hmiss fd st mime now with ⟨hrefused, -⟩ | ⟨i, hstored, -, hfree, hsound⟩
        · rw [hrefused] at hstep
          cases hstep
          exact h.init
        · rw [hstored] at hstep
          cases hstep
          refine ⟨hsound, fun p f => ?_⟩
          have hinit : ∀ g, s.cache.init.entries i ≠ .live g :=
            fun g hg => hfree g (h.sound.init_live.1 hg)
          rw [listed]
          dsimp only [FileCache.setEntry]
          split
          -- The stored path has the new file, and no other place has that path.
          · rename_i hp
            rw [Option.some.injEq]
            constructor
            · rintro rfl
              exact ⟨i, Function.update_self .., hp⟩
            · rintro ⟨j, hj, hf⟩
              rw [Function.update_apply] at hj
              split at hj
              · exact CacheSlot.live.inj hj
              · exact absurd (hf.trans hp.symm) (h.sound.find_none.1 hmiss j f (h.sound.init_live.1 hj))
          -- Another path has the file it had.
          · rename_i hp
            rw [h.shows]
            constructor
            · rintro ⟨j, hj, hf⟩
              have hj' := h.sound.init_live.2 hj
              refine ⟨j, ?_, hf⟩
              rw [Function.update_of_ne]
              · exact hj'
              · rintro rfl
                exact hinit f hj'
            · rintro ⟨j, hj, hf⟩
              rw [Function.update_apply] at hj
              split at hj
              · cases hj
                exact absurd hf hp
              · exact ⟨j, h.sound.init_live.1 hj, hf⟩
  | release fd env =>
      rw [Logged.step] at hstep
      obtain ⟨hready, hentries⟩ := staticCacheRelease_table { env with cache := s.cache } fd
      dsimp only at hready hentries
      cases hat : Handler.cachedAt s.cache fd with
      | none =>
          rw [hat] at hstep hentries
          cases hstep
          exact h.congr hready (hentries.trans (ite_self _))
      | some f =>
          obtain ⟨i, e⟩ := f
          have hi := (Handler.cachedAt_some hat).1
          have hyes : s.cache.ready = true := by
            by_contra hno
            exact h.sound.unready (Bool.not_eq_true _ ▸ hno) i e hi
          rw [hat, hyes, if_pos rfl] at hentries
          rw [hat] at hstep
          cases hstep
          exact h.change hi hready hentries rfl rfl
  | clear env =>
      cases hstep
      obtain ⟨hready, hnone⟩ := staticCacheClear_table { env with cache := s.cache } h.sound.unready
      refine ⟨⟨.empty fun i => FileCache.table_isFree.2 (hnone i), fun i e hi => absurd hi (hnone i e),
        fun _ => hnone⟩, fun path e => ⟨nofun, ?_⟩⟩
      rintro ⟨i, hi, -⟩
      exact absurd hi (hnone i e)

end Steps

/-- In every state of every sequence of calls: no two live entries have one path; a find
gives what the log has for the path, which is there exactly when the path was stored and not
dropped since; and a store after a miss is refused for a long path or 64 live entries, and
otherwise takes a slot without a live entry and leaves the other live entries. -/
theorem fileCache_runs (ops : List TableOp) : ∀ s ∈ runStates Logged.step ⟨.fresh, []⟩ ops,
    (∀ i j e f, s.cache.entries i = .live e → s.cache.entries j = .live f → e.path = f.path → i = j) ∧
    (∀ path, (fileCacheFind s.cache path).2.map Prod.snd = listed path s.log ∧
      ((fileCacheFind s.cache path).2 ≠ none ↔ StoredSince path s.log) ∧
      ∀ i e, (fileCacheFind s.cache path).2 = some (i, e) ↔
        s.cache.entries i = .live e ∧ e.path = path) ∧
    ∀ path fd st mime now, path ≠ [] → (fileCacheFind s.cache path).2 = none →
      ((fileCacheStore s.cache path fd st mime now).2 = none ↔
        FILE_CACHE_PATH ≤ path.length ∨ ∀ i, ∃ e, s.cache.entries i = .live e) ∧
      ∀ i, (fileCacheStore s.cache path fd st mime now).2 = some i →
        (∀ e, s.cache.entries i ≠ .live e) ∧
        (fileCacheStore s.cache path fd st mime now).1.entries i
          = .live (fillEntry (pathHash path) path fd st mime now) ∧
        ∀ j f, j ≠ i → ((fileCacheStore s.cache path fd st mime now).1.entries j = .live f ↔
          s.cache.entries j = .live f) := by
  intro s hs
  have hall : AllSteps Logged.step (fun _ _ => True) ⟨.fresh, []⟩ ops :=
    .of_forall (fun _ _ => trivial) ops _
  have hstart : Logged.Inv ⟨.fresh, []⟩ := ⟨.fresh, fun _ _ => ⟨nofun, fun ⟨_, hi, _⟩ => nomatch hi⟩⟩
  have hinv : s.Inv := hall.invariant (fun _ _ _ hi _ hstep => hi.step hstep) hstart s hs
  have hsound := hinv.sound
  refine ⟨fun i j e f hi hj hpath => ?_, fun path => ?_, fun path fd st mime now hne hmiss => ?_⟩
  · exact hsound.chained.once i j f.path e f (FileCache.table_live.2 ⟨hi, hpath⟩)
      (FileCache.table_live.2 ⟨hj, rfl⟩)
  · have hfound : (fileCacheFind s.cache path).2.map Prod.snd = listed path s.log := by
      apply Option.ext
      intro e
      rw [hinv.shows, Option.map_eq_some_iff]
      constructor
      · rintro ⟨⟨i, f⟩, hfind, rfl⟩
        exact ⟨i, hsound.find_iff.1 hfind⟩
      · rintro ⟨i, hi⟩
        exact ⟨(i, e), hsound.find_iff.2 hi, rfl⟩
    refine ⟨hfound, ?_, fun i e => hsound.find_iff⟩
    rw [← listed_isSome_iff, ← hfound, ne_eq, ne_eq, Option.map_eq_none_iff]
  · rcases hsound.store_spec hne hmiss fd st mime now with ⟨heq, hwhy⟩ | ⟨i, heq, hshort, hfree, -⟩
    · rw [heq]
      exact ⟨⟨fun _ => hwhy, fun _ => rfl⟩, fun _ => nofun⟩
    · rw [heq]
      refine ⟨⟨nofun, ?_⟩, fun k hk => ?_⟩
      · rintro (hlong | hfull)
        · exact absurd hshort (Nat.not_lt.2 hlong)
        · obtain ⟨e, he⟩ := hfull i
          exact absurd he (hfree e)
      · obtain rfl := Option.some.inj hk
        refine ⟨hfree, Function.update_self .., fun j f hj => ?_⟩
        rw [FileCache.setEntry]
        dsimp only
        rw [Function.update_of_ne hj]
        exact hsound.init_live

/-- Two paths are stored and used. One use ends, and the other path is gone at the next recheck. -/
def twoPaths : List TableOp :=
  [.store (cstr "a") 3 ⟨.regular, 5, 0, 0, 7⟩ [] 0, .store (cstr "b") 4 ⟨.regular, 6, 0, 0, 8⟩ [] 0,
    .hold (cstr "a"), .hold (cstr "b"), .release 4 getHandler, .recheck (cstr "a") 2000 getHandler]

theorem fileCache_runs_twoPaths : ∃ s ∈ runStates Logged.step ⟨.fresh, []⟩ twoPaths,
    ((listed (cstr "a") s.log).isNone ∧ (listed (cstr "b") s.log).isSome ∧ s.log.length = 6) ∧
      ∀ path, (fileCacheFind s.cache path).2 ≠ none ↔ StoredSince path s.log := by
  obtain ⟨s, hs, hlog⟩ := exists_of_run
    (p := fun s : Logged =>
      (listed (cstr "a") s.log).isNone ∧ (listed (cstr "b") s.log).isSome ∧ s.log.length = 6)
    (show (runTo Logged.step ⟨.fresh, []⟩ twoPaths).any _ = true by decide +kernel)
  exact ⟨s, hs, hlog, fun path => ((fileCache_runs twoPaths s hs).2.1 path).2.1⟩

/-! ## The calls of `static_serve` -/

/-- Some operations lead from the one state to the other. -/
def Reaches (s s' : Logged) : Prop := ∃ ops, runTo Logged.step s ops = some s'

section Serve

variable {s s' s'' : Logged} {h : Handler} {log : List TableEvent} {rel : List UInt8} {now : Nat}

theorem Reaches.refl (s : Logged) : Reaches s s := ⟨[], rfl⟩

theorem Reaches.one {op : TableOp} (hstep : s.step op = some s') : Reaches s s' :=
  ⟨[op], by rw [runTo, hstep]; rfl⟩

theorem Reaches.trans (h : Reaches s s') (h' : Reaches s' s'') : Reaches s s'' := by
  obtain ⟨ops, hops⟩ := h
  obtain ⟨ops', hops'⟩ := h'
  exact ⟨ops ++ ops', (runTo_append hops).trans hops'⟩

theorem Reaches.inv (h : Reaches s s') (hinv : s.Inv) : s'.Inv := by
  obtain ⟨ops, hops⟩ := h
  have hall : AllSteps Logged.step (fun _ _ => True) s ops := .of_forall (fun _ _ => trivial) ops _
  exact hall.invariant (fun _ _ _ hi _ hstep => hi.step hstep) hinv s' (runTo_mem hops)

/-- A found entry is held. -/
theorem Logged.step_hold {c : FileCache} {i : Fin FILE_CACHE_SLOTS} {e : CachedFile}
    (hsound : c.Sound) (hready : c.ready = true) (hi : c.entries i = .live e) :
    Logged.step ⟨c, log⟩ (.hold e.path) = some ⟨fileCacheHold c i, .changed e.path (held e) :: log⟩ := by
  have hinit : c.init = c := by rw [FileCache.init, if_pos hready]
  rw [Logged.step, hsound.find_iff.2 ⟨hi, rfl⟩, Handler.fileCacheFind_cache, hinit]

theorem armRegular_table (fd : Nat) (size : Int64) (mime : List UInt8) (owned : Bool)
    (hfile : h.hc.fileFd = none) : (h.armRegular fd size mime owned now).cache = h.cache := by
  have hclose : ∀ k : Handler, k.hc.fileFd = none → k.cache = h.cache →
      ((if owned then k.close fd else k).armClose RESPONSE_500 500 now).cache = h.cache := by
    intro k hk hcache
    rw [Handler.armClose_cache]
    · rw [apply_ite Handler.cache]
      exact (ite_self _).trans hcache
    · split
      · exact hk
      · exact hk
  rw [Handler.armRegular]
  cases hroom : h.bumpAlloc STATIC_HDR_SIZE with
  | none => exact hclose h hfile rfl
  | some k =>
      rw [Handler.bumpAlloc] at hroom
      split at hroom
      · cases hroom
      · cases hroom
        dsimp only
        split
        · exact hclose _ hfile rfl
        · rfl

/-- A lookup is a find, and behind a hit a recheck and a hold. Behind a lookup without an
answer stands a miss. -/
theorem serveCached_ops (hinv : Logged.Inv ⟨h.cache, log⟩) (hfile : h.hc.fileFd = none) :
    ∃ log', Reaches ⟨h.cache, log⟩ ⟨(h.serveCached rel now).2.cache, log'⟩ ∧
      ((h.serveCached rel now).1 = false →
        (fileCacheFind (h.serveCached rel now).2.cache rel).2 = none ∧
        (h.serveCached rel now).2.hc.fileFd = none) := by
  rw [Handler.serveCached, Handler.fileCacheFind_cache]
  cases hfind : (fileCacheFind h.cache rel).2 with
  | none =>
      have hstep : Logged.step ⟨h.cache, log⟩ (.find rel) = some ⟨h.cache.init, log⟩ := by
        rw [Logged.step, Handler.fileCacheFind_cache]
      refine ⟨log, .one hstep, fun _ => ⟨?_, hfile⟩⟩
      dsimp only
      rw [hinv.sound.init.find_none]
      intro i e hi
      exact hinv.sound.find_none.1 hfind i e (hinv.sound.init_live.1 hi)
  | some r =>
      obtain ⟨i, e⟩ := r
      obtain ⟨hi, rfl⟩ := hinv.sound.find_iff.1 hfind
      have hinit : h.cache.init.entries i = .live e := hinv.sound.init_live.2 hi
      have haside := Handler.fileCacheRecheck_aside { h with cache := h.cache.init } i e now
      obtain ⟨hready, hcase⟩ := fileCacheRecheck_table (h := { h with cache := h.cache.init }) hinit now
      have hstep : Logged.step ⟨h.cache, log⟩ (.recheck e.path now h) =
          ({ h with cache := h.cache.init }.fileCacheRecheck i e now).1.elim
            (some ⟨({ h with cache := h.cache.init }.fileCacheRecheck i e now).2.cache,
              .dropped e.path :: log⟩)
            fun e' => some ⟨({ h with cache := h.cache.init }.fileCacheRecheck i e now).2.cache,
              .changed e.path e' :: log⟩ := by
        rw [Logged.step, hfind, Handler.fileCacheFind_cache]
        dsimp only
        cases ({ h with cache := h.cache.init }.fileCacheRecheck i e now).1 <;> rfl
      have hfile' : ({ h with cache := h.cache.init }.fileCacheRecheck i e now).2.hc.fileFd = none :=
        (congrArg HttpConn.fileFd haside.hc).trans hfile
      dsimp only
      generalize { h with cache := h.cache.init }.fileCacheRecheck i e now = r at *
      obtain ⟨o, k⟩ := r
      dsimp only at hready hcase hstep hfile' ⊢
      rcases hcase with ⟨rfl, hentries⟩ | ⟨e', rfl, hpath, -, hentries⟩
      · -- A dropped entry is not found again.
        have hreach : Reaches ⟨h.cache, log⟩ ⟨k.cache, .dropped e.path :: log⟩ := .one hstep
        have hinv' := hreach.inv hinv
        refine ⟨_, hreach, fun _ => ⟨?_, hfile'⟩⟩
        rw [hinv'.sound.find_none]
        intro j f hj hf
        have hlisted := (hinv'.shows e.path f).2 ⟨j, hj, hf⟩
        rw [listed, if_pos rfl] at hlisted
        cases hlisted
      · have hreach : Reaches ⟨h.cache, log⟩ ⟨k.cache, .changed e.path e' :: log⟩ := .one hstep
        have hinv' := hreach.inv hinv
        have hlive : k.cache.entries i = .live e' := by rw [hentries, Function.update_self]
        have hheld : Logged.step ⟨k.cache, .changed e.path e' :: log⟩ (.hold e'.path) = some _ :=
          Logged.step_hold hinv'.sound (hready.trans (FileCache.init_ready h.cache)) hlive
        dsimp only
        rw [@armRegular_table { k with cache := fileCacheHold k.cache i } now _ _ _ _ hfile']
        exact ⟨_, hreach.trans (.one hheld), by rintro ⟨⟩⟩

/-- An opened file is stored, after a miss, and held. -/
theorem serveOpened_ops (hinv : Logged.Inv ⟨h.cache, log⟩) (hfile : h.hc.fileFd = none) (hne : rel ≠ [])
    (hmiss : (fileCacheFind h.cache rel).2 = none) (fd : Nat) (st : Stat) :
    ∃ log', Reaches ⟨h.cache, log⟩ ⟨(h.serveOpened true rel fd st now).cache, log'⟩ := by
  rw [Handler.serveOpened]
  split
  · rw [Handler.armKeepable_cache (h := h.close fd) _ _ _ hfile]
    exact ⟨log, .refl _⟩
  · have hguard : ¬ (rel = [] ∨ (fileCacheFind h.cache rel).2.isSome) := by
      rw [hmiss]
      exact fun hor => hor.elim hne nofun
    dsimp only
    rw [if_pos rfl]
    rcases hinv.sound.store_spec hne hmiss fd st (mimeFromPath rel) now with
      ⟨heq, -⟩ | ⟨i, heq, -, -, hsound⟩
    · have hstep : Logged.step ⟨h.cache, log⟩ (.store rel fd st (mimeFromPath rel) now)
          = some ⟨h.cache.init, log⟩ := by
        rw [Logged.step, if_neg hguard, heq]
      rw [heq]
      dsimp only
      rw [@armRegular_table { h with cache := h.cache.init } now _ _ _ _ hfile]
      exact ⟨log, .one hstep⟩
    · generalize hput : h.cache.init.setEntry i
        (.live (fillEntry (pathHash rel) rel fd st (mimeFromPath rel) now)) = c at heq hsound
      have hlive : c.entries i = .live (fillEntry (pathHash rel) rel fd st (mimeFromPath rel) now) := by
        rw [← hput]
        exact Function.update_self ..
      have hready : c.ready = true := by
        rw [← hput]
        exact FileCache.init_ready h.cache
      have hstep : Logged.step ⟨h.cache, log⟩ (.store rel fd st (mimeFromPath rel) now) = some ⟨c,
          .stored rel (fillEntry (pathHash rel) rel fd st (mimeFromPath rel) now) :: log⟩ := by
        rw [Logged.step, if_neg hguard, heq]
      have hheld : Logged.step ⟨c, .stored rel (fillEntry (pathHash rel) rel fd st
          (mimeFromPath rel) now) :: log⟩ (.hold rel) = some _ :=
        Logged.step_hold hsound hready hlive
      rw [heq]
      dsimp only
      rw [@armRegular_table { h with cache := fileCacheHold c i } now _ _ _ _ hfile]
      exact ⟨_, (Reaches.one hstep).trans (.one hheld)⟩

/-- A lookup, and for a miss the opening of the file. -/
theorem fetch_ops (hinv : Logged.Inv ⟨h.cache, log⟩) (hfile : h.hc.fileFd = none) :
    (∀ k, h.fetch true rel now = .error k → ∃ log', Reaches ⟨h.cache, log⟩ ⟨k.cache, log'⟩) ∧
      ∀ fd st k, h.fetch true rel now = .ok (fd, st, k) → k.hc.fileFd = none ∧
        (fileCacheFind k.cache rel).2 = none ∧ ∃ log', Reaches ⟨h.cache, log⟩ ⟨k.cache, log'⟩ := by
  obtain ⟨log', hreach, hmiss⟩ := @serveCached_ops h log rel now hinv hfile
  rw [Handler.fetch, if_pos rfl]
  generalize h.serveCached rel now = r at hreach hmiss
  obtain ⟨hit, c⟩ := r
  cases hit with
  | true =>
      refine ⟨fun k hk => ?_, by rintro _ _ _ ⟨⟩⟩
      obtain rfl := Except.error.inj hk
      exact ⟨log', hreach⟩
  | false =>
      obtain ⟨hnone, hfile'⟩ := hmiss rfl
      obtain ⟨o, ho⟩ : ∃ o, o = c.openUnder rel := ⟨_, rfl⟩
      have haside : Aside c o.2 := by
        rw [ho]
        exact Handler.openUnder_aside c rel
      have hcache : o.2.cache = c.cache := Handler.openUnder_eq_cache (ho.symm.trans (Prod.mk.eta).symm)
      obtain ⟨herror, hok⟩ := @Handler.statOpened_cache now o
        ((congrArg HttpConn.fileFd haside.hc).trans hfile')
      dsimp only at hreach hnone ⊢
      rw [← ho]
      refine ⟨fun k hk => ⟨log', ?_⟩, fun fd st k hk => ?_⟩
      · rw [(herror k hk).trans hcache]
        exact hreach
      · obtain ⟨hc, hhc, -⟩ := hok fd st k hk
        rw [hc.trans hcache, hhc, haside.hc]
        exact ⟨hfile', hnone, log', hreach⟩

/-- `static_serve` on the document root makes one of these sequences of calls. -/
theorem servePath_ops (hinv : Logged.Inv ⟨h.cache, log⟩) (hfile : h.hc.fileFd = none) (hne : rel ≠ [])
    (decoded redir : List UInt8) :
    ∃ log', Reaches ⟨h.cache, log⟩ ⟨(h.servePath true decoded rel redir now).cache, log'⟩ := by
  obtain ⟨herror, hok⟩ := @fetch_ops h log rel now hinv hfile
  rw [Handler.servePath_eq]
  cases hr : h.fetch true rel now with
  | error k => exact herror k hr
  | ok r =>
      obtain ⟨fd, st, k⟩ := r
      obtain ⟨hfile', hmiss, log', hreach⟩ := hok fd st k hr
      have hinv' := hreach.inv hinv
      dsimp only
      split
      · -- A directory: the same for its index file.
        rw [Handler.serveIndex_eq]
        split
        · rw [Handler.armDirRedirect_cache (h := k.close fd) _ hfile']
          exact ⟨log', hreach⟩
        split
        · rw [Handler.armKeepable_cache (h := k.close fd) _ _ _ hfile']
          exact ⟨log', hreach⟩
        obtain ⟨herror', hok'⟩ := @fetch_ops (k.close fd) log' (rel ++ cstr "/index.html") now hinv' hfile'
        cases hr' : (k.close fd).fetch true (rel ++ cstr "/index.html") now with
        | error k' =>
            obtain ⟨log'', hreach'⟩ := herror' k' hr'
            exact ⟨log'', hreach.trans hreach'⟩
        | ok r' =>
            obtain ⟨fd', st', k'⟩ := r'
            obtain ⟨hfile'', hmiss', log'', hreach'⟩ := hok' fd' st' k' hr'
            have hindex : rel ++ cstr "/index.html" ≠ [] := List.append_ne_nil_of_left_ne_nil hne _
            obtain ⟨log₃, hlast⟩ := @serveOpened_ops k' log'' _ now (hreach'.inv hinv') hfile'' hindex hmiss'
              fd' st'
            exact ⟨log₃, (hreach.trans hreach').trans hlast⟩
      · obtain ⟨log'', hlast⟩ := @serveOpened_ops k log' rel now hinv' hfile' hne hmiss fd st
        exact ⟨log'', hreach.trans hlast⟩

end Serve

end TinyServer.Static
