import TinyServer.Lib.Run
import TinyServer.Routing.Install

/-!
# Descriptors of the table (`routes_init`, `routes_shutdown`)

The table holds the descriptors of its mounts and of the document root (`Router.held`).
`routes_shutdown` closes what is held, and `routes_init` holds at every point what it has
opened: `nroutes` is set before the first `open`, and the entries that were not filled yet
have the mark of `site_clear`. So at any failure all descriptors are closed, once each.
-/

set_option autoImplicit false

namespace TinyServer.Routing

open TinyServer.Http TinyServer.Net TinyServer.Static TinyServer.Lib

/-! ## Held descriptors -/

/-- The calls so far are sound, and the open descriptors are the held ones. -/
structure Tracked (calls : List ControlCall) (held : List Nat) : Prop where
  closes : ClosesOpen (fun _ => none) calls
  nodup : held.Nodup
  opens : ∀ fd, openFds calls fd = if fd ∈ held then some .file else none

namespace Tracked

variable {calls : List ControlCall} {held held' : List Nat} {fd : Nat}

/-- Before the first call nothing is open. -/
theorem start : Tracked [] [] := ⟨trivial, List.nodup_nil, fun _ => rfl⟩

/-- The order in which descriptors are held does not matter. -/
theorem perm (h : Tracked calls held) (hp : held.Perm held') : Tracked calls held' where
  closes := h.closes
  nodup := hp.nodup_iff.1 h.nodup
  opens fd := by simpa only [hp.mem_iff] using h.opens fd

/-- A call that is quiet changes nothing. -/
theorem quiet (h : Tracked calls held) {c : ControlCall} (hc : c.Quiet) :
    Tracked (calls ++ [c]) held where
  closes := (closesOpen_append ..).2 ⟨h.closes, fun fd he => absurd he (hc.2 fd), trivial⟩
  nodup := h.nodup
  opens fd := by
    rw [openFds_append, afterCalls_singleton, afterCall_quiet hc]
    exact h.opens fd

/-- Opening a new descriptor holds it. -/
theorem opened (h : Tracked calls held) {path : List UInt8}
    (hfresh : FreshCalls (calls ++ [.openFile path (some fd)])) :
    Tracked (calls ++ [.openFile path (some fd)]) (fd :: held) := by
  have hnew : fd ∉ held := by
    intro hmem
    have hnone := hfresh.append.2.1 fd rfl
    rw [h.opens fd, if_pos hmem] at hnone
    cases hnone
  refine ⟨(closesOpen_append ..).2 ⟨h.closes, fun _ he => (by cases he), trivial⟩,
    List.nodup_cons.2 ⟨hnew, h.nodup⟩, fun k => ?_⟩
  rw [openFds_append, afterCalls_singleton]
  by_cases hk : k = fd
  · subst hk
    simp [afterCall]
  · simp [afterCall, hk, h.opens k]

/-- Closing a held descriptor gives it up. -/
theorem closed (h : Tracked calls (fd :: held)) : Tracked (calls ++ [.close fd]) held := by
  obtain ⟨hnew, hnodup⟩ := List.nodup_cons.1 h.nodup
  have hopen : openFds calls fd ≠ none := by
    rw [h.opens fd, if_pos List.mem_cons_self]
    nofun
  refine ⟨(closesOpen_append ..).2 ⟨h.closes, fun k he => ?_, trivial⟩, hnodup, fun k => ?_⟩
  · cases he
    exact hopen
  · rw [openFds_append, afterCalls_singleton]
    by_cases hk : k = fd
    · subst hk
      simp [afterCall, hnew]
    · simp [afterCall, hk, h.opens k]

/-- Closing a whole list gives up the list. -/
theorem closedAll {fds : List Nat} : ∀ {calls : List ControlCall}, Tracked calls (fds ++ held) →
    Tracked (calls ++ fds.map .close) held := by
  induction fds with
  | nil =>
      intro calls h
      simpa using h
  | cons fd fds ih =>
      intro calls h
      have := ih (Tracked.closed h)
      simpa using this

end Tracked

/-- A descriptor that is opened in a sound log, where all are closed in the end, is closed
once before its number is given again. -/
theorem closed_once {calls as bs : List ControlCall} {path : List UInt8} {fd : Nat}
    (h : Tracked calls []) (hfresh : FreshCalls calls)
    (hsplit : calls = as ++ .openFile path (some fd) :: bs) :
    (bs.takeWhile fun c => decide (c.opened ≠ some fd)).count (.close fd) = 1 := by
  obtain ⟨life, hlife⟩ : ∃ life, life = bs.takeWhile fun c => decide (c.opened ≠ some fd) := ⟨_, rfl⟩
  rw [← hlife]
  have hbs : bs = life ++ bs.dropWhile fun c => decide (c.opened ≠ some fd) := by
    rw [hlife, List.takeWhile_append_dropWhile]
  have hother : ∀ c ∈ life, c.opened ≠ some fd := by
    intro c hc
    rw [hlife] at hc
    have := List.mem_takeWhile_imp hc
    exact of_decide_eq_true this
  have hcalls : calls = (as ++ [.openFile path (some fd)]) ++ (life ++
      bs.dropWhile fun c => decide (c.opened ≠ some fd)) := by
    rw [← hbs, hsplit]
    simp
  have hopen : openFds (as ++ [.openFile path (some fd)]) fd = some .file := by
    rw [openFds_append, afterCalls_singleton]
    simp [afterCall]
  have hcloses := h.closes
  rw [hcalls] at hcloses hfresh
  have hafter := ((closesOpen_append _ _ _).1 hcloses).2
  have hfreshLife := hfresh.append.2
  rcases open_life life ((closesOpen_append _ _ _).1 hafter).1 hother hopen with
    ⟨-, hstill⟩ | ⟨hone, -⟩
  · -- still open: but then the log ends with it open, or it is given again while open
    exfalso
    cases hrest : bs.dropWhile fun c => decide (c.opened ≠ some fd) with
    | nil =>
        have hend := h.opens fd
        rw [hcalls, hrest, List.append_nil, openFds_append] at hend
        rw [show afterCalls (openFds _) life fd = _ from hstill] at hend
        simp at hend
    | cons c rest =>
        have hc : c.opened = some fd := by
          have hne : (bs.dropWhile fun c => decide (c.opened ≠ some fd)) ≠ [] := by
            rw [hrest]
            nofun
          have hhead := List.head_dropWhile_not _ hne
          have hcons : (bs.dropWhile fun c => decide (c.opened ≠ some fd)).head hne = c := by
            simp only [hrest, List.head_cons]
          rw [hcons] at hhead
          simpa using hhead
        rw [hrest] at hfreshLife
        have hnone := ((freshAfter_append _ _ _).1 hfreshLife).2.1 fd hc
        rw [show afterCalls (openFds _) life fd = _ from hstill] at hnone
        cases hnone
  · exact hone

namespace Router

/-- The descriptors of the table. -/
def held (g : Router) : List Nat :=
  g.site.listed.filterMap TinyRoute.dirFd ++ g.docroot.toList

/-! ## Shutting down -/

/-- The descriptors that `n` routes from index `i` on have. -/
def dirsFrom (g : Router) (n i : Nat) : List Nat :=
  ((g.site.routes.drop i).take n).filterMap TinyRoute.dirFd

/-- `routes_shutdown` closes the directory descriptors in table order. -/
theorem closeDirs_eq {n : Nat} : ∀ {i : Nat} {g : Router},
    (closeDirs n i g).calls = g.calls ++ (g.dirsFrom n i).map .close ∧
      (closeDirs n i g).docroot = g.docroot := by
  induction n with
  | zero =>
      intro i g
      simp [closeDirs, dirsFrom]
  | succ n ih =>
      intro i g
      simp only [closeDirs]
      cases hr : g.site.routes[i]? with
      | none =>
          have hdrop : g.site.routes.drop i = [] :=
            List.drop_eq_nil_of_le (List.getElem?_eq_none_iff.1 hr)
          simp [dirsFrom, hdrop]
      | some r =>
          have hdrop : g.site.routes.drop i = r :: g.site.routes.drop (i + 1) := by
            obtain ⟨hlt, rfl⟩ := List.getElem?_eq_some_iff.1 hr
            exact List.drop_eq_getElem_cons hlt
          cases hfd : r.dirFd with
          | none =>
              obtain ⟨h₁, h₂⟩ := ih (i := i + 1) (g := g)
              simp only [hfd]
              exact ⟨by rw [h₁]; simp [dirsFrom, hdrop, hfd], h₂⟩
          | some fd =>
              obtain ⟨h₁, h₂⟩ := ih (i := i + 1)
                (g := (g.call (.close fd)).put i { r with dirFd := none })
              simp only [hfd]
              refine ⟨?_, by rw [h₂]; rfl⟩
              rw [h₁]
              simp [dirsFrom, hdrop, hfd, put, call, List.drop_set_of_lt]

/-- The state after `routes_shutdown`. -/
structure Empty (g : Router) : Prop where
  ready : g.ready = false
  nroutes : g.site.nroutes = 0
  docroot : g.docroot = none

theorem Empty.held {g : Router} (h : g.Empty) : g.held = [] := by
  simp [Router.held, TinySite.listed, h.nroutes, h.docroot]

/-- The document root is held only while there is a table. -/
def Rooted (g : Router) : Prop := g.docroot ≠ none → g.ready = true ∨ g.site.nroutes ≠ 0

/-- It leaves the table without a descriptor. -/
theorem routesShutdown_empty {g : Router} (h : g.Rooted) : g.routesShutdown.Empty := by
  refine ⟨rfl, rfl, ?_⟩
  simp only [routesShutdown]
  by_cases hn : g.ready = true ∨ g.site.nroutes ≠ 0
  · rw [if_pos hn]
    simp only [staticShutdown]
    split
    · assumption
    · rfl
  · rw [if_neg hn, closeDirs_eq.2]
    by_contra hne
    exact hn (h hne)

/-- Each descriptor that was held is closed, and no other. -/
theorem routesShutdown_calls {g : Router} (h : g.Rooted) :
    g.routesShutdown.calls = g.calls ++ g.held.map .close := by
  have hdirs : g.dirsFrom g.site.nroutes 0 = g.site.listed.filterMap TinyRoute.dirFd := rfl
  simp only [routesShutdown, held, List.map_append, ← hdirs]
  by_cases hn : g.ready = true ∨ g.site.nroutes ≠ 0
  · rw [if_pos hn]
    simp only [staticShutdown, closeDirs_eq.2]
    cases hd : g.docroot with
    | none => simp [closeDirs_eq.1]
    | some fd => simp [call, closeDirs_eq.1]
  · have hd : g.docroot = none := by
      by_contra hne
      exact hn (h hne)
    rw [if_neg hn, closeDirs_eq.1, hd]
    simp

/-- What is known of a table between two calls. -/
structure Sound (g : Router) : Prop where
  rooted : g.Rooted
  tracked : FreshCalls g.calls → Tracked g.calls g.held

/-- So the books are right after it. -/
theorem Sound.shutdown {g : Router} (h : g.Sound) : g.routesShutdown.Sound := by
  have he := routesShutdown_empty h.rooted
  refine ⟨fun hne => absurd he.docroot hne, fun hfresh => ?_⟩
  rw [routesShutdown_calls h.rooted] at hfresh ⊢
  rw [he.held]
  exact Tracked.closedAll (by simpa using h.tracked hfresh.append.1)

/-! ## One route -/

/-- What one turn of the loop of `routes_init` does to the descriptors. -/
inductive RouteEffect (g : Router) (i : Nat) (primary : Bool) :
    Except InitError Bool × Router → Prop
  | kept {res : Except InitError Bool} {r : TinyRoute} (hr : r.dirFd = none)
      (hres : ∀ p, res = .ok p → p = primary) : RouteEffect g i primary (res, g.put i r)
  | refused {e : InitError} {r : TinyRoute} {path : List UInt8} (hr : r.dirFd = none) :
      RouteEffect g i primary (.error e, (g.put i r).call (.openFile path none))
  | root {r : TinyRoute} {path : List UInt8} {fd : Nat} (hr : r.dirFd = none)
      (hp : primary = false) :
      RouteEffect g i primary
        (.ok true, { (g.put i r).call (.openFile path (some fd)) with docroot := some fd })
  | mount {r : TinyRoute} {path : List UInt8} {fd : Nat} (hr : r.dirFd = some fd) :
      RouteEffect g i primary (.ok primary, (g.put i r).call (.openFile path (some fd)))

theorem ensureDirSlash_dirFd {r r' : TinyRoute} (h : ensureDirSlash r = some r') :
    r'.dirFd = r.dirFd := by
  simp only [ensureDirSlash] at h
  split at h
  · cases h
    rfl
  split at h
  · cases h
    rfl
  split at h
  · cases h
  · cases h
    rfl

/-- What installing one route does to the table and the calls, by the outcome of its open. -/
theorem initRoute_effect (g : Router) (i : Nat) (kind : Option FileKind) (fd : Option Nat)
    (primary : Bool) (src : TinyRoute) :
    RouteEffect g i primary (g.initRoute i kind fd primary src) := by
  simp only [initRoute]
  split
  · exact .kept rfl fun p h => (by cases h; rfl)
  split
  · exact .kept rfl nofun
  · -- a directory
    split
    · exact .kept rfl nofun
    rename_i r hs
    have hr : r.dirFd = none := ensureDirSlash_dirFd hs
    split
    · split
      · exact .kept hr nofun
      rename_i hp
      have hp : primary = false := by simpa using hp
      unfold staticInit
      by_cases htarget : r.target = []
      · rw [if_pos htarget]
        exact .kept hr nofun
      · rw [if_neg htarget]
        cases fd with
        | none => exact .refused hr
        | some fd =>
            have : RouteEffect g i primary (.ok true,
                { (g.put i { r with primary := true }).call (.openFile r.target (some fd)) with
                  docroot := some fd }) := .root hr hp
            simpa [put, call] using this
    · cases fd with
      | none => exact .refused hr
      | some fd =>
          have : RouteEffect g i primary (.ok primary,
              (g.put i { r with dirFd := some fd }).call (.openFile r.target (some fd))) :=
            .mount rfl
          simpa [put, call] using this
  · split
    · exact .kept rfl nofun
    · exact .kept rfl fun p h => (by cases h; rfl)
  · exact .kept rfl nofun

/-! ## The loop -/

/-- What holds before turn `i` of the loop of `routes_init`. -/
structure Filling (i : Nat) (primary : Bool) (g : Router) : Prop where
  tracked : FreshCalls g.calls → Tracked g.calls g.held
  empty : ∀ j, i ≤ j → ∀ r, g.site.routes[j]? = some r → r.dirFd = none
  docroot : primary = false → g.docroot = none

theorem filterMap_set_perm {α β : Type} {f : α → Option β} {l : List α} {i : Nat} {a b : α}
    (h : l[i]? = some a) (ha : f a = none) :
    ((l.set i b).filterMap f).Perm ((f b).toList ++ l.filterMap f) := by
  obtain ⟨hlt, rfl⟩ := List.getElem?_eq_some_iff.1 h
  have hset : l.set i b = l.take i ++ b :: l.drop (i + 1) := by
    rw [List.set_eq_take_append_cons_drop, if_pos hlt]
  have hl : l = l.take i ++ l[i] :: l.drop (i + 1) := by simp
  rw [hset]
  conv_rhs => rw [hl]
  simp only [List.filterMap_append, List.filterMap_cons, ha]
  cases f b with
  | none => exact List.Perm.refl _
  | some c => exact List.perm_middle

/-- An entry that had no descriptor is filled. -/
theorem put_held {g : Router} {i : Nat} {primary : Bool} (hf : Filling i primary g)
    (hi : i < g.site.nroutes) (r : TinyRoute) :
    (g.put i r).held.Perm (r.dirFd.toList ++ g.held) := by
  have hlt : i < g.site.listed.length := by
    rw [TinySite.listed, List.length_take, g.site.routes_length]
    have := g.site.nroutes_le
    omega
  have hget := List.getElem?_eq_getElem hlt
  have hempty : g.site.listed[i].dirFd = none := by
    refine hf.empty i le_rfl _ ?_
    rw [← hget, TinySite.listed, List.getElem?_take_of_lt hi]
  have hlisted : (g.put i r).site.listed = g.site.listed.set i r := List.take_set
  rw [held, hlisted, held, ← List.append_assoc]
  exact (filterMap_set_perm hget hempty).append_right _

theorem put_empty {g : Router} {i : Nat} {primary : Bool} (hf : Filling i primary g)
    (r : TinyRoute) : ∀ j, i + 1 ≤ j → ∀ q, (g.put i r).site.routes[j]? = some q → q.dirFd = none := by
  intro j hj q hq
  refine hf.empty j (by omega) q ?_
  rw [← hq]
  exact (List.getElem?_set_ne (by omega)).symm

/-- One turn of the loop: the open descriptors are the held ones, whether the turn fails or
not. -/
theorem Filling.step {g g' : Router} {i : Nat} {primary : Bool} {res : Except InitError Bool}
    (hf : Filling i primary g) (hi : i < g.site.nroutes)
    (h : RouteEffect g i primary (res, g')) :
    (FreshCalls g'.calls → Tracked g'.calls g'.held) ∧
      g'.site.nroutes = g.site.nroutes ∧ ∀ p, res = .ok p → Filling (i + 1) p g' := by
  have hheld := put_held hf hi
  cases h with
  | @kept _ r hr hres =>
      have ht : FreshCalls (g.put i r).calls → Tracked (g.put i r).calls (g.put i r).held :=
        fun hfresh => (hf.tracked hfresh).perm (by simpa [hr] using (hheld r).symm)
      refine ⟨ht, rfl, fun p hp => ⟨ht, put_empty hf r, fun hno => ?_⟩⟩
      exact hf.docroot (hres p hp ▸ hno)
  | @refused e r path hr =>
      refine ⟨fun hfresh => ?_, rfl, nofun⟩
      have ht := (hf.tracked hfresh.append.1).perm (by simpa [hr] using (hheld r).symm)
      exact ht.quiet ⟨rfl, nofun⟩
  | @root r path fd hr hp =>
      have ht : FreshCalls (g.calls ++ [.openFile path (some fd)]) →
          Tracked (g.calls ++ [.openFile path (some fd)])
            ({ (g.put i r).call (.openFile path (some fd)) with docroot := some fd }).held := by
        intro hfresh
        refine ((hf.tracked hfresh.append.1).opened hfresh).perm ?_
        -- the document root was not open, so it is the one that is new
        have hd := hf.docroot hp
        have hr' : (g.put i r).held = (g.put i r).site.listed.filterMap TinyRoute.dirFd := by
          simp [held, put, hd]
        have hperm : g.held.Perm ((g.put i r).site.listed.filterMap TinyRoute.dirFd) := by
          rw [← hr']
          simpa [hr] using (hheld r).symm
        exact (hperm.cons fd).trans (List.perm_append_singleton _ _).symm
      exact ⟨ht, rfl, fun p hp => ⟨ht, put_empty hf r, fun hno => by cases hp; cases hno⟩⟩
  | @mount r path fd hr =>
      have ht : FreshCalls (g.calls ++ [.openFile path (some fd)]) →
          Tracked (g.calls ++ [.openFile path (some fd)]) (g.put i r).held := by
        intro hfresh
        refine ((hf.tracked hfresh.append.1).opened hfresh).perm ?_
        simpa [hr] using (hheld r).symm
      refine ⟨ht, rfl, fun p hp => ⟨ht, put_empty hf r, fun hno => ?_⟩⟩
      cases hp
      exact hf.docroot hno

/-- The loop, at whatever route it ends. -/
theorem initLoop_tracked {kinds : Nat → Option FileKind} {fds : Nat → Option Nat}
    {rest : List TinyRoute} :
    ∀ {i : Nat} {primary : Bool} {g : Router}, Filling i primary g →
      i + rest.length ≤ g.site.nroutes →
      let g' := (initLoop kinds fds i primary rest g).2
      (FreshCalls g'.calls → Tracked g'.calls g'.held) ∧ g'.site.nroutes = g.site.nroutes := by
  induction rest with
  | nil => exact fun hf _ => ⟨hf.tracked, rfl⟩
  | cons src rest ih =>
      intro i primary g hf hlen
      rw [List.length_cons] at hlen
      have heffect := initRoute_effect g i (kinds i) (fds i) primary src
      simp only [initLoop]
      rcases hstep : g.initRoute i (kinds i) (fds i) primary src with ⟨res, g₁⟩
      rw [hstep] at heffect
      obtain ⟨ht, hn, hnext⟩ := hf.step (by omega) heffect
      cases res with
      | error e => exact ⟨ht, hn⟩
      | ok p =>
          obtain ⟨ht', hn'⟩ := ih (hnext p rfl) (by rw [hn]; omega)
          exact ⟨ht', hn'.trans hn⟩

/-- `routes_init` starts to fill an empty table. -/
theorem filling_start {g : Router} (hs : g.Sound) (he : g.Empty) (site : TinySite) :
    Filling 0 false { g with site := { siteClear with
      port := site.port, nroutes := site.nroutes, nroutes_le := site.nroutes_le } } := by
  have hclear : ∀ (j : Nat) (r : TinyRoute), siteClear.routes[j]? = some r → r.dirFd = none := by
    intro j r hr
    have := List.mem_of_getElem? hr
    rw [List.eq_of_mem_replicate this]
    rfl
  refine ⟨fun hfresh => ?_, fun j _ r hr => hclear j r hr, fun _ => he.docroot⟩
  have hheld : ({ g with site := { siteClear with
      port := site.port, nroutes := site.nroutes, nroutes_le := site.nroutes_le } } : Router).held
        = g.held := by
    rw [he.held, held, he.docroot]
    simp only [Option.toList_none, List.append_nil, List.filterMap_eq_nil_iff]
    intro r hr
    obtain ⟨j, hj⟩ := List.getElem?_of_mem (List.mem_of_mem_take hr)
    exact hclear j r hj
  rw [hheld]
  exact hs.tracked hfresh

/-- Whether or not it fails, the books are right after `routes_init`. -/
theorem install_sound {g : Router} (hs : g.Sound) (he : g.Empty) (kinds : Nat → Option FileKind)
    (fds : Nat → Option Nat) (site : TinySite) :
    let r := install kinds fds site { g with site := siteClear }
    r.2.Sound ∧ ∀ e, r.1 = .error e → r.2.Empty := by
  have hfill := filling_start hs he site
  obtain ⟨ht, hn⟩ := @initLoop_tracked kinds fds site.listed 0 false _ hfill
    (by simp [TinySite.listed])
  -- with no route at all the loop opens nothing
  have hrooted : ∀ g', (initLoop kinds fds 0 false site.listed { g with site := { siteClear with
      port := site.port, nroutes := site.nroutes, nroutes_le := site.nroutes_le } }).2 = g' →
        g'.Rooted := by
    intro g' hg' hne
    by_cases h₀ : site.nroutes = 0
    · have hnil : site.listed = [] := by simp [TinySite.listed, h₀]
      rw [hnil] at hg'
      subst hg'
      exact absurd he.docroot hne
    · rw [hg'] at hn
      exact .inr (by rw [hn]; exact h₀)
  simp only [install]
  rcases hloop : initLoop kinds fds 0 false site.listed { g with site := { siteClear with
      port := site.port, nroutes := site.nroutes, nroutes_le := site.nroutes_le } } with ⟨res, g'⟩
  rw [hloop] at ht
  have hg' : g'.Sound := ⟨hrooted g' (by rw [hloop]), ht⟩
  cases res with
  | error e => exact ⟨hg'.shutdown, fun _ _ => routesShutdown_empty hg'.rooted⟩
  | ok u =>
      simp only
      split
      · exact ⟨hg'.shutdown, fun _ _ => routesShutdown_empty hg'.rooted⟩
      · exact ⟨⟨fun _ => .inl rfl, hg'.tracked⟩, nofun⟩

/-- `routes_init` leaves a sound table, and an empty one if it fails. -/
theorem routesInit_sound {g : Router} (h : g.Sound) (kinds : Nat → Option FileKind)
    (fds : Nat → Option Nat) (site : Option TinySite) :
    let r := routesInit kinds fds site g
    r.2.Sound ∧ ∀ e, r.1 = .error e → r.2.Empty := by
  have he := routesShutdown_empty h.rooted
  have hs := h.shutdown
  have hclear : ({ g.routesShutdown with site := siteClear } : Router).Empty :=
    ⟨rfl, rfl, he.docroot⟩
  have hsound : ({ g.routesShutdown with site := siteClear } : Router).Sound := by
    refine ⟨fun hne => absurd he.docroot hne, fun hfresh => ?_⟩
    rw [hclear.held, ← he.held]
    exact hs.tracked hfresh
  simp only [routesInit]
  cases site with
  | none => exact ⟨hsound, fun _ _ => hclear⟩
  | some site =>
      simp only
      split
      · exact ⟨hsound, fun _ _ => hclear⟩
      · exact install_sound hs he kinds fds site

/-! ## Runs -/

/-- A call of one of the two functions. -/
inductive Call where
  | init (kinds : Nat → Option FileKind) (fds : Nat → Option Nat) (site : Option TinySite)
  | shutdown

/-- A call and what it leaves. -/
def step (g : Router) : Call → Option Router
  | .init kinds fds site => some (routesInit kinds fds site g).2
  | .shutdown => some g.routesShutdown

theorem start_sound : start.Sound :=
  ⟨fun hne => absurd rfl hne, fun _ => Tracked.start⟩

/-- In every table that calls of the three functions lead to, the books are right. -/
theorem reachable_sound (cs : List Call) : ∀ g ∈ runStates step start cs, g.Sound := by
  have hall : AllSteps step (fun _ _ => True) start cs :=
    AllSteps.of_forall (fun _ _ => trivial) cs start
  refine AllSteps.invariant (I := Sound) ?_ start_sound hall
  intro g c g' hg _ hstep
  cases c with
  | init kinds fds site =>
      cases hstep
      exact (routesInit_sound hg kinds fds site).1
  | shutdown =>
      cases hstep
      exact hg.shutdown

/-- Nothing is installed, and every descriptor that was ever opened for a table was closed
once. -/
structure Cleared (g : Router) : Prop where
  empty : g.Empty
  noRoute : ∀ allowDotfiles path, routeMatch (g.table allowDotfiles) path = none
  closed : ∀ fd, openFds g.calls fd = none
  once : ∀ as path fd bs, g.calls = as ++ .openFile path (some fd) :: bs →
    (bs.takeWhile fun c => decide (c.opened ≠ some fd)).count (.close fd) = 1

/-- After a `routes_init` that fails, whatever was installed before it and wherever it
fails, nothing is installed and every descriptor is closed once. -/
theorem routesInit_failed (cs : List Call) {g : Router} (hg : g ∈ runStates step start cs)
    {kinds : Nat → Option FileKind} {fds : Nat → Option Nat} {site : Option TinySite}
    {e : InitError} {g' : Router} (h : routesInit kinds fds site g = (.error e, g'))
    (hfresh : FreshCalls g'.calls) : g'.Cleared := by
  obtain ⟨hsound, hempty⟩ := routesInit_sound (reachable_sound cs g hg) kinds fds site
  rw [h] at hsound hempty
  have he : g'.Empty := hempty e rfl
  have ht : Tracked g'.calls [] := he.held ▸ hsound.tracked hfresh
  refine ⟨he, fun allow path => ?_, fun fd => ht.opens fd, fun as path fd bs hsplit => ?_⟩
  · have hnil : g'.site.listed = [] := by simp [TinySite.listed, he.nroutes]
    simp [routeMatch, Router.table, hnil, routeMatchLoop]
  · exact closed_once ht hfresh hsplit

/-- A site with the directory `www` at `/` and the directory `img` at `/img`. -/
def twoDirectories : TinySite where
  port := 80
  nroutes := 2
  routes := { TinyRoute.cleared with
      type := .static
      pathPrefix := cstr "/"
      prefixLen := 1
      target := cstr "www"
      targetLen := 3 } :: { TinyRoute.cleared with
      type := .static
      pathPrefix := cstr "/img"
      prefixLen := 4
      target := cstr "img"
      targetLen := 3 } :: List.replicate 30 .cleared
  routes_length := rfl
  nroutes_le := by decide

/-- The second `routes_init` opens the root again, and cannot open the mount. -/
theorem routesInit_failed_second :
    ∃ g ∈ runStates step start
        [.init (fun _ => some .directory) (fun i => some (3 + i)) (some twoDirectories)],
      ∃ g', routesInit (fun _ => some .directory) (fun i => if i = 0 then some 3 else none)
          (some twoDirectories) g = (.error (.openFailed (cstr "img")), g') ∧
        g'.calls = [.openFile (cstr "www") (some 3), .openFile (cstr "img") (some 4),
          .close 4, .close 3, .openFile (cstr "www") (some 3), .openFile (cstr "img") none,
          .close 3] ∧ g'.Cleared := by
  have hrun : (routesInit (fun _ => some .directory) (fun i => some (3 + i))
      (some twoDirectories) start).2 ∈ runStates step start
        [.init (fun _ => some .directory) (fun i => some (3 + i)) (some twoDirectories)] := by
    simp [runStates, step]
  have hcalls : (routesInit (fun _ => some .directory) (fun i => if i = 0 then some 3 else none)
      (some twoDirectories) (routesInit (fun _ => some .directory) (fun i => some (3 + i))
        (some twoDirectories) start).2).2.calls
      = [.openFile (cstr "www") (some 3), .openFile (cstr "img") (some 4),
          .close 4, .close 3, .openFile (cstr "www") (some 3), .openFile (cstr "img") none,
          .close 3] := by
    decide +kernel
  have herr : (routesInit (fun _ => some .directory) (fun i => if i = 0 then some 3 else none)
      (some twoDirectories) (routesInit (fun _ => some .directory) (fun i => some (3 + i))
        (some twoDirectories) start).2).1 = .error (.openFailed (cstr "img")) := rfl
  refine ⟨_, hrun, ?_⟩
  rcases h : routesInit (fun _ => some .directory) (fun i => if i = 0 then some 3 else none)
    (some twoDirectories) (routesInit (fun _ => some .directory) (fun i => some (3 + i))
      (some twoDirectories) start).2 with ⟨res, g'⟩
  rw [h] at hcalls herr
  cases herr
  have hcalls : g'.calls = _ := hcalls
  exact ⟨g', rfl, hcalls, routesInit_failed _ hrun h (by rw [hcalls]; decide)⟩

end Router

end TinyServer.Routing
