import TinyServer.Routing.Loaded
import TinyServer.Routing.Match

/-!
# The routes that can be selected

Which route of an installed table is selected for its own prefix. A route loses its prefix
to a directory route with one slash more, and to no other: prefixes are compared as texts,
and the directory route claims the path without the slash too (`alive_iff`).
-/

set_option autoImplicit false

namespace TinyServer.Routing

open TinyServer.Http TinyServer.Static

/-! ## Prefixes of the table -/

/-- The prefix a route is installed with: a directory has its slash. -/
def TinyRoute.slashedPrefix (kind : Option FileKind) (r : TinyRoute) : List UInt8 :=
  if r.type = .static ∧ kind = some .directory ∧ r.pathPrefix.getLast? ≠ some SLASH then
    r.pathPrefix ++ [SLASH]
  else r.pathPrefix

/-- The prefixes of a site, where `stat` says `kinds` of the targets. -/
def TinySite.prefixes (kinds : Nat → Option FileKind) (s : TinySite) : List (List UInt8) :=
  s.listed.mapIdx fun i r => r.slashedPrefix (kinds i)

theorem TinyRoute.endsSlash_iff {r : TinyRoute} (h : 0 < r.prefixLen) :
    r.EndsSlash ↔ r.prefixBytes.getLast? = some SLASH := by
  refine ⟨fun hs => hs.prefixBytes h, fun hs => ?_⟩
  rw [List.getLast?_eq_getElem?, TinyRoute.prefixBytes_length,
    TinyRoute.getElem?_prefixBytes (by omega)] at hs
  exact Option.some.inj hs

/-- An installed directory's prefix is the written one with its slash. -/
theorem Installs.prefixBytes_eq {kind : Option FileKind} {fd : Option Nat} {src r : TinyRoute}
    (hp : Parsed src) (h : Installs kind fd src r) : r.prefixBytes = src.slashedPrefix kind := by
  have hun : src.unmarked = src := hp.unmarked
  have hdir : ∀ {r₁ : TinyRoute}, src.type = .static → kind = some .directory →
      ensureDirSlash src.unmarked = some r₁ → r₁.prefixBytes = src.slashedPrefix kind := by
    intro r₁ ht hk hs
    rw [hun] at hs
    have hslash := TinyRoute.endsSlash_iff hp.pos
    rw [hp.prefixBytes] at hslash
    obtain ⟨hend, rfl | ⟨hno, -, rfl⟩⟩ := ensureDirSlash_some hs
    · simp [TinyRoute.slashedPrefix, hslash.1 hend, hp.prefixBytes]
    · simp [TinyRoute.slashedPrefix, ht, hk, mt hslash.2 hno, hp.prefixBytes]
  cases h with
  | other ht => simp [TinyRoute.slashedPrefix, ht, hp.prefixBytes]
  | root ht hk hs _ _ _ =>
      have := hdir ht hk hs
      exact this
  | mount ht hk hs _ _ =>
      have := hdir ht hk hs
      exact this
  | file ht hk _ =>
      have : src.slashedPrefix kind = src.prefixBytes := by
        simp [TinyRoute.slashedPrefix, hk, hp.prefixBytes]
      rw [this]
      rfl

section Table

variable {kinds kinds₀ : Nat → Option FileKind} {fds : Nat → Option Nat}
variable {site : TinySite} {g g' : Router}

/-- The table that requests see has the site's prefixes. -/
theorem Router.table_prefixes (g : Router) (allowDotfiles : Bool) :
    (g.table allowDotfiles).routes.map Route.pathPrefix
      = g.site.listed.map TinyRoute.prefixBytes := by
  simp [Router.table, Function.comp_def, TinyRoute.route]

/-- The prefixes of the installed table. -/
theorem Loaded.table_prefixes (hl : Loaded kinds₀ site)
    (h : Router.routesInit kinds fds (some site) g = (.ok (), g')) (allowDotfiles : Bool) :
    (g'.table allowDotfiles).routes.map Route.pathPrefix = site.prefixes kinds := by
  obtain ⟨-, hn, hinst, -⟩ := routesInit_ok h
  rw [Router.table_prefixes]
  apply List.ext_getElem?
  intro i
  by_cases hi : i < site.nroutes
  · obtain ⟨src, hsrc⟩ : ∃ src, site.listed[i]? = some src :=
      ⟨_, List.getElem?_eq_getElem (by simpa using hi)⟩
    obtain ⟨r, hr, hr'⟩ := hinst i src hsrc
    simp [TinySite.prefixes, hr, hsrc, hr'.prefixBytes_eq (hl.checked i src hsrc).parsed]
  · have h₁ : g'.site.listed[i]? = none := List.getElem?_eq_none (by simp; omega)
    have h₂ : site.listed[i]? = none := List.getElem?_eq_none (by simp; omega)
    simp [TinySite.prefixes, h₁, h₂]

/-- Every prefix of the table begins with a slash, and an exact one ends with none. -/
theorem Loaded.table_route (hl : Loaded kinds₀ site)
    (h : Router.routesInit kinds fds (some site) g = (.ok (), g')) {allowDotfiles : Bool}
    {r : Route} (hr : r ∈ (g'.table allowDotfiles).routes) :
    r.pathPrefix.head? = some SLASH ∧
      (r.exact = true → r.pathPrefix.getLast? = some SLASH → r.pathPrefix.length = 1) := by
  obtain ⟨-, hn, hinst, -⟩ := routesInit_ok h
  obtain ⟨q, hq, rfl⟩ := List.mem_map.1 hr
  obtain ⟨i, hi⟩ := List.getElem?_of_mem hq
  have hlt : i < site.nroutes := by
    have := (List.getElem?_eq_some_iff.1 hi).1
    simpa [hn] using this
  obtain ⟨src, hsrc⟩ : ∃ src, site.listed[i]? = some src :=
    ⟨_, List.getElem?_eq_getElem (by simpa using hlt)⟩
  obtain ⟨q', hq', hinstalls⟩ := hinst i src hsrc
  obtain rfl : q' = q := by rw [hi] at hq'; exact (Option.some.inj hq').symm
  have hp := (hl.checked i src hsrc).parsed
  have hbytes : q'.route.pathPrefix = src.slashedPrefix (kinds i) := hinstalls.prefixBytes_eq hp
  constructor
  · rw [hbytes, TinyRoute.slashedPrefix]
    split
    · rw [List.head?_append, hp.head]
      rfl
    · exact hp.head
  · intro hx hlast
    have hun : src.unmarked = src := hp.unmarked
    cases hinstalls with
    | other _ => exact absurd hx (by simp [TinyRoute.route, TinyRoute.unmarked])
    | root _ _ hs _ _ _ =>
        rcases (ensureDirSlash_some hs).2 with rfl | ⟨-, -, rfl⟩ <;>
          exact absurd hx (by simp [TinyRoute.route, TinyRoute.unmarked, TinyRoute.slashed])
    | mount _ _ hs _ _ =>
        rcases (ensureDirSlash_some hs).2 with rfl | ⟨-, -, rfl⟩ <;>
          exact absurd hx (by simp [TinyRoute.route, TinyRoute.unmarked, TinyRoute.slashed])
    | file _ _ hs =>
        have hend : src.EndsSlash := (TinyRoute.endsSlash_iff hp.pos).2 hlast
        have hle : src.prefixLen ≤ 1 := by
          by_contra hgt
          exact hs ⟨hend, by omega⟩
        have hpos := hp.pos
        show src.prefixBytes.length = 1
        rw [TinyRoute.prefixBytes_length]
        omega

/-! ## Dead routes -/

/-- Every route is selected for its own prefix. -/
def Alive (s : Site) : Prop := ∀ r ∈ s.routes, routeMatch s r.pathPrefix = some r

/-- A route claims its own prefix. -/
theorem Route.claims_prefix (r : Route) : r.Claims r.pathPrefix := by
  cases hx : r.exact with
  | true => exact .inl ⟨hx, rfl⟩
  | false =>
      refine .inr ⟨hx, ?_⟩
      by_cases hs : r.pathPrefix.getLast? = some SLASH
      · obtain ⟨s, hs⟩ := List.getLast?_eq_some_iff.1 hs
        rw [Route.stem_of_slash hs, hs]
        exact .inr List.prefix_rfl
      · rw [Route.stem_of_plain hs]
        exact .inl rfl

/-- A longer prefix that claims the path of another one has a slash more. -/
theorem Route.Claims.slash_more {r : Route} {path : List UInt8} (h : r.Claims path)
    (hlt : path.length < r.pathPrefix.length) : r.pathPrefix = path ++ [SLASH] := by
  obtain ⟨t, ht⟩ := h.begins
  have hlen := congrArg List.length ht
  simp only [List.length_append, List.length_singleton] at hlen
  have : t = [] := List.length_eq_zero_iff.1 (by omega)
  simpa [this] using ht

/-- No route of an accepted config is dead exactly when no prefix is another one with a
slash after it. -/
theorem alive_iff {resolve : List UInt8 → List UInt8 → Option (List UInt8)}
    {file : Option (List UInt8)} (hload : tinySiteLoad resolve kinds₀ file = .ok site)
    (hinit : Router.routesInit kinds fds (some site) g = (.ok (), g')) (allowDotfiles : Bool) :
    Alive (g'.table allowDotfiles) ↔
      ∀ p ∈ site.prefixes kinds, p ++ [SLASH] ∉ site.prefixes kinds := by
  have hl := tinySiteLoad_loaded hload
  have hpre := hl.table_prefixes hinit allowDotfiles
  have hd : ((g'.table allowDotfiles).routes.map Route.pathPrefix).Nodup := by
    rw [Router.table_prefixes]
    exact (routesInit_ok hinit).2.2.2
  constructor
  · intro halive p hp hslash
    rw [← hpre] at hp hslash
    obtain ⟨r, hr, rfl⟩ := List.mem_map.1 hp
    obtain ⟨s, hs, hseq⟩ := List.mem_map.1 hslash
    obtain ⟨hhead, -⟩ := hl.table_route hinit hr
    -- the route with the slash claims the path without it
    have hclaims : s.Claims r.pathPrefix := by
      have hx : s.exact = false := by
        by_contra hx
        have hone := (hl.table_route hinit hs).2 (by simpa using hx) (by simp [hseq])
        rw [hseq] at hone
        have : r.pathPrefix = [] := by simpa using hone
        simp [this] at hhead
      exact .inr ⟨hx, .inl (Route.stem_of_slash hseq).symm⟩
    have hle := routeMatch_longest (halive r hr) hs ((routeMatches_iff hhead).2 hclaims)
    rw [hseq] at hle
    simp at hle
  · intro hno r hr
    obtain ⟨hhead, -⟩ := hl.table_route hinit hr
    rw [routeMatch_eq_some_iff hd hhead]
    refine ⟨hr, (routeMatches_iff hhead).2 r.claims_prefix, fun s hs hm hne => ?_⟩
    have hclaims := (routeMatches_iff hhead).1 hm
    rcases Nat.lt_trichotomy s.pathPrefix.length r.pathPrefix.length with hlt | heq | hgt
    · exact hlt
    · exact absurd (List.inj_on_of_nodup_map hd hs hr (hclaims.prefix_eq r.claims_prefix heq)) hne
    · have hmem : ∀ q ∈ (g'.table allowDotfiles).routes, q.pathPrefix ∈ site.prefixes kinds :=
        fun q hq => hpre ▸ List.mem_map_of_mem hq
      exact absurd (hclaims.slash_more hgt ▸ hmem s hs) (hno _ (hmem r hr))

/-- A config with a file and a directory at `/a`. -/
def fileAndDirectory : List UInt8 := cstr "listen 80\nstatic /a ./f\nstatic /a ./d\n"

/-- The first path is a file, the others are directories. -/
def firstRegular (i : Nat) : Option FileKind := if i = 0 then some .regular else some .directory

theorem alive_iff_fileAndDirectory :
    ∃ site g', tinySiteLoad (fun _ _ => none) firstRegular (some fileAndDirectory) = .ok site ∧
      Router.routesInit firstRegular (fun _ => some 3) (some site) .start = (.ok (), g') ∧
      (Alive (g'.table false) ↔
        ∀ p ∈ site.prefixes firstRegular, p ++ [SLASH] ∉ site.prefixes firstRegular) := by
  obtain ⟨site, hload⟩ := exists_ok (x := tinySiteLoad (fun _ _ => none) firstRegular
    (some fileAndDirectory)) (by decide +kernel)
  obtain ⟨g', hinit, -⟩ : ∃ g', Router.routesInit firstRegular (fun _ => some 3) (some site)
      .start = (.ok (), g') ∧ _ := (tinySiteLoad_loaded hload).routesInit (fun _ _ => rfl) .start
  exact ⟨site, g', hload, hinit, alive_iff hload hinit false⟩

/-- The config is accepted, and the file is never served: the path `/a` goes to the
directory. -/
theorem fileAndDirectory_dead :
    ∃ site g', tinySiteLoad (fun _ _ => none) firstRegular (some fileAndDirectory) = .ok site ∧
      Router.routesInit firstRegular (fun _ => some 3) (some site) .start = (.ok (), g') ∧
      (g'.table false).routes.map Route.pathPrefix = [cstr "/a", cstr "/a/"] ∧
      ¬ Alive (g'.table false) := by
  obtain ⟨site, hload⟩ := exists_ok (x := tinySiteLoad (fun _ _ => none) firstRegular
    (some fileAndDirectory)) (by decide +kernel)
  obtain ⟨g', hinit, hlisted⟩ : ∃ g', Router.routesInit firstRegular (fun _ => some 3) (some site)
      .start = (.ok (), g') ∧ g'.site.listed = site.marked firstRegular fun _ => some 3 :=
    (tinySiteLoad_loaded hload).routesInit (fun _ _ => rfl) .start
  have htable : (tinySiteLoad (fun _ _ => none) firstRegular
      (some fileAndDirectory)).toOption.map
        (fun s => (s.marked firstRegular fun _ => some 3).map TinyRoute.route)
      = some [⟨.static, true, false, none, cstr "/a", cstr "./f", [], 0⟩,
        ⟨.static, false, false, some 3, cstr "/a/", cstr "./d", [], 0⟩] := by
    decide +kernel
  rw [hload] at htable
  have hroutes : (g'.table false).routes
      = [⟨.static, true, false, none, cstr "/a", cstr "./f", [], 0⟩,
        ⟨.static, false, false, some 3, cstr "/a/", cstr "./d", [], 0⟩] := by
    rw [Router.table, hlisted]
    exact Option.some.inj htable
  refine ⟨site, g', hload, hinit, by rw [hroutes]; rfl, fun halive => ?_⟩
  have hfirst := halive _ (by rw [hroutes]; exact List.mem_cons_self ..)
  rw [routeMatch, hroutes] at hfirst
  exact absurd hfirst (by decide)

end Table

end TinyServer.Routing
