import Mathlib.Data.List.MinMax
import Mathlib.Data.List.Nodup
import TinyServer.Routing.Install

/-!
# Longest prefix (`route_matches`, `route_match`)

A route that is not exact claims a place in the tree of paths: the path it names, without
a trailing slash, and everything below it (`Beneath`). Two routes whose places hold one
path are nested, so the longest prefix is the innermost place, and two routes with
prefixes of one length have one prefix.
-/

set_option autoImplicit false

namespace TinyServer.Routing

open TinyServer.Http

/-- `path` is `stem`, or a segment below it. -/
def Beneath (stem path : List UInt8) : Prop := path = stem ∨ stem ++ [SLASH] <+: path

namespace Route

/-- The prefix without its trailing slash. -/
def stem (r : Route) : List UInt8 :=
  if r.pathPrefix.getLast? = some SLASH then r.pathPrefix.dropLast else r.pathPrefix

/-- The paths that a route is for. -/
def Claims (r : Route) (path : List UInt8) : Prop :=
  (r.exact = true ∧ path = r.pathPrefix) ∨ (r.exact = false ∧ Beneath r.stem path)

theorem stem_of_slash {r : Route} {s : List UInt8} (h : r.pathPrefix = s ++ [SLASH]) :
    r.stem = s := by
  simp [stem, h]

theorem stem_of_plain {r : Route} (h : r.pathPrefix.getLast? ≠ some SLASH) :
    r.stem = r.pathPrefix := by
  simp [stem, h]

end Route

/-- What a path with a final slash added begins with: the path, or what the path itself
begins with. -/
theorem Beneath.begins {stem path : List UInt8} (h : Beneath stem path) :
    stem ++ [SLASH] <+: path ++ [SLASH] := by
  rcases h with rfl | h
  · exact List.prefix_rfl
  · exact h.trans (List.prefix_append _ _)

/-- The length test and the byte test of `route_match` together say: a prefix. -/
theorem isPrefix_iff_take {l path : List UInt8} :
    l.length ≤ path.length ∧ path.take l.length = l ↔ l <+: path := by
  constructor
  · rintro ⟨-, h⟩
    exact h ▸ List.take_prefix _ _
  · intro h
    exact ⟨h.length_le, (List.prefix_iff_eq_take.1 h).symm⟩

/-! ## One route -/

/-- A prefix that ends in a slash matches what lies beneath its stem. -/
theorem routeMatches_slash {r : Route} {path s : List UInt8} (hx : r.exact = false)
    (hs : r.pathPrefix = s ++ [SLASH]) (hp : path.head? = some SLASH) :
    routeMatches r path = true ↔ Beneath s path := by
  have hlast : r.pathPrefix[r.pathPrefix.length - 1]? = some SLASH := by simp [hs]
  have hfull : r.pathPrefix.length ≤ path.length ∧ path.take r.pathPrefix.length = r.pathPrefix
      ↔ s ++ [SLASH] <+: path := by rw [← hs]; exact isPrefix_iff_take
  by_cases hroot : s = []
  · -- the root claims every path, and every path begins with its slash
    subst hroot
    rcases path with _ | ⟨c, path⟩
    · simp at hp
    · simp only [List.head?_cons, Option.some.injEq] at hp
      subst hp
      simp [routeMatches, hx, hs, Beneath]
  · have hlen : ¬ (r.pathPrefix.length = 1 ∧ r.pathPrefix.head? = some SLASH) := by
      rintro ⟨hl, -⟩
      have : s.length = 0 := by simpa [hs] using hl
      exact hroot (List.length_eq_zero_iff.1 this)
    have hpos : 0 < r.pathPrefix.length := by simp [hs]
    have hshort : path.length + 1 = r.pathPrefix.length ∧ path = r.pathPrefix.take path.length
        ↔ path = s := by
      constructor
      · rintro ⟨hl, h⟩
        have : path.length = s.length := by simpa [hs] using hl
        rw [h, this, hs]
        simp
      · rintro rfl
        simp [hs]
    simp only [routeMatches, hx, Bool.false_eq_true, if_false, hlen, hpos, hlast, and_self,
      if_true, Beneath, hshort, hfull]
    by_cases h₁ : path = s
    · simp [h₁]
    · by_cases h₂ : s ++ [SLASH] <+: path <;> simp [h₁, h₂]

/-- Another prefix matches what lies beneath it. -/
theorem routeMatches_plain {r : Route} {path : List UInt8} (hx : r.exact = false)
    (hs : r.pathPrefix.getLast? ≠ some SLASH) :
    routeMatches r path = true ↔ Beneath r.pathPrefix path := by
  have hlast : r.pathPrefix[r.pathPrefix.length - 1]? ≠ some SLASH := by
    rwa [← List.getLast?_eq_getElem?]
  have hroot : ¬ (r.pathPrefix.length = 1 ∧ r.pathPrefix.head? = some SLASH) := by
    rintro ⟨hl, hh⟩
    obtain ⟨c, hc⟩ := List.length_eq_one_iff.1 hl
    simp_all
  simp only [routeMatches, hx, Bool.false_eq_true, if_false, hroot, hlast, and_false]
  by_cases hpre : r.pathPrefix <+: path
  · obtain ⟨t, rfl⟩ := hpre
    rcases t with _ | ⟨c, t⟩
    · simp [Beneath]
    · have hc : c = SLASH ↔ SLASH = c := ⟨Eq.symm, Eq.symm⟩
      simp [Beneath, List.prefix_append_right_inj, hc]
  · have hcut : path.length < r.pathPrefix.length ∨
        path.take r.pathPrefix.length ≠ r.pathPrefix := by
      by_contra h
      push Not at h
      exact hpre (isPrefix_iff_take.1 h)
    simp only [hcut, if_true, Bool.false_eq_true, false_iff, Beneath, not_or]
    exact ⟨fun h => hpre (h ▸ List.prefix_rfl),
      fun h => hpre ((List.prefix_append _ _).trans h)⟩

/-- `route_matches` says whether the route claims the path. -/
theorem routeMatches_iff {r : Route} {path : List UInt8} (hp : path.head? = some SLASH) :
    routeMatches r path = true ↔ r.Claims path := by
  cases hx : r.exact with
  | true => simp [routeMatches, Route.Claims, hx]; intro h; rw [h]
  | false =>
      by_cases hs : r.pathPrefix.getLast? = some SLASH
      · obtain ⟨s, hs⟩ := List.getLast?_eq_some_iff.1 hs
        simp [routeMatches_slash hx hs hp, Route.Claims, hx, Route.stem_of_slash hs]
      · simp [routeMatches_plain hx hs, Route.Claims, hx, Route.stem_of_plain hs]

/-- The prefix of a route begins every path of the route, up to a final slash. -/
theorem Route.Claims.begins {r : Route} {path : List UInt8} (h : r.Claims path) :
    r.pathPrefix <+: path ++ [SLASH] := by
  rcases h with ⟨-, rfl⟩ | ⟨-, h⟩
  · exact List.prefix_append _ _
  · by_cases hs : r.pathPrefix.getLast? = some SLASH
    · obtain ⟨s, hs⟩ := List.getLast?_eq_some_iff.1 hs
      rw [hs, ← Route.stem_of_slash hs]
      exact h.begins
    · rw [Route.stem_of_plain hs] at h
      exact (List.prefix_append _ _).trans h.begins

/-- Two routes for one path whose prefixes have one length have one prefix. -/
theorem Route.Claims.prefix_eq {r r' : Route} {path : List UInt8} (h : r.Claims path)
    (h' : r'.Claims path) (hlen : r.pathPrefix.length = r'.pathPrefix.length) :
    r.pathPrefix = r'.pathPrefix :=
  (List.prefix_of_prefix_length_le h.begins h'.begins hlen.le).eq_of_length hlen

/-! ## The table -/

section Table

variable {site : Site} {path : List UInt8} {r r' : Route}

/-- The loop keeps the longest match it has seen, the first of equals. -/
theorem routeMatchLoop_eq_foldl (path : List UInt8) (rs : List Route) (best : Option Route) :
    routeMatchLoop path rs best
      = (rs.filter fun r => routeMatches r path).foldl
          (List.argAux fun b c => c.pathPrefix.length < b.pathPrefix.length) best := by
  induction rs generalizing best with
  | nil => rfl
  | cons r rs ih =>
      cases hr : routeMatches r path with
      | false => simp [routeMatchLoop, hr, ih]
      | true =>
          cases best with
          | none => simp [routeMatchLoop, hr, ih, List.argAux]
          | some b =>
              by_cases hb : b.pathPrefix.length < r.pathPrefix.length <;>
                simp [routeMatchLoop, hr, ih, List.argAux, hb]

/-- `route_match` is the first longest of the routes that match. -/
theorem routeMatch_eq_argmax (site : Site) (path : List UInt8) :
    routeMatch site path
      = (site.routes.filter fun r => routeMatches r path).argmax fun r => r.pathPrefix.length :=
  routeMatchLoop_eq_foldl path site.routes none

/-- No route is selected iff none matches. -/
theorem routeMatch_eq_none :
    routeMatch site path = none ↔ ∀ r ∈ site.routes, routeMatches r path = false := by
  rw [routeMatch_eq_argmax, List.argmax_eq_none, List.filter_eq_nil_iff]
  simp

/-- The selected route is in the table and matches. -/
theorem routeMatch_mem (h : routeMatch site path = some r) :
    r ∈ site.routes ∧ routeMatches r path = true := by
  rw [routeMatch_eq_argmax] at h
  exact List.mem_filter.1 (List.argmax_mem h)

/-- No matching route has a longer prefix. -/
theorem routeMatch_longest (h : routeMatch site path = some r) (hm : r' ∈ site.routes)
    (hr' : routeMatches r' path = true) : r'.pathPrefix.length ≤ r.pathPrefix.length := by
  rw [routeMatch_eq_argmax] at h
  have hmem : r' ∈ site.routes.filter fun r => routeMatches r path :=
    List.mem_filter.2 ⟨hm, hr'⟩
  exact List.le_of_mem_argmax (f := fun r : Route => r.pathPrefix.length) hmem h

/-- Routes with distinct prefixes: every other route for the path has a shorter prefix. -/
theorem routeMatch_strict (hd : (site.routes.map Route.pathPrefix).Nodup)
    (hp : path.head? = some SLASH) (h : routeMatch site path = some r) (hm : r' ∈ site.routes)
    (hr' : routeMatches r' path = true) (hne : r' ≠ r) :
    r'.pathPrefix.length < r.pathPrefix.length := by
  obtain ⟨hmr, hr⟩ := routeMatch_mem h
  refine lt_of_le_of_ne (routeMatch_longest h hm hr') fun hlen => ?_
  have heq := ((routeMatches_iff hp).1 hr').prefix_eq ((routeMatches_iff hp).1 hr) hlen
  exact hne (List.inj_on_of_nodup_map hd hm hmr heq)

/-- With distinct prefixes, the selected route is the one that matches and has a longer
prefix than every other that does. -/
theorem routeMatch_eq_some_iff
    (hd : (site.routes.map Route.pathPrefix).Nodup)
    (hp : path.head? = some SLASH) :
    routeMatch site path = some r ↔
      r ∈ site.routes ∧ routeMatches r path = true ∧
        ∀ r' ∈ site.routes, routeMatches r' path = true → r' ≠ r →
          r'.pathPrefix.length < r.pathPrefix.length := by
  constructor
  · intro h
    obtain ⟨hm, hr⟩ := routeMatch_mem h
    exact ⟨hm, hr, fun r' hm' hr' hne => routeMatch_strict hd hp h hm' hr' hne⟩
  · rintro ⟨hm, hr, hlt⟩
    cases hs : routeMatch site path with
    | none =>
        have := routeMatch_eq_none.1 hs r hm
        simp [hr] at this
    | some s =>
        obtain ⟨hms, hss⟩ := routeMatch_mem hs
        by_contra hne
        have hne' : s ≠ r := fun h => hne (by rw [h])
        have h₁ := hlt s hms hss hne'
        have h₂ := routeMatch_longest hs hm hr
        omega

/-- The order of the routes does not matter. -/
theorem routeMatch_perm {site' : Site}
    (hd : (site.routes.map Route.pathPrefix).Nodup)
    (hp : path.head? = some SLASH) (hperm : site.routes.Perm site'.routes) :
    routeMatch site' path = routeMatch site path := by
  have hd' : (site'.routes.map Route.pathPrefix).Nodup := (hperm.map _).nodup_iff.1 hd
  cases h : routeMatch site path with
  | none =>
      rw [routeMatch_eq_none] at h ⊢
      exact fun r hm => h r (hperm.mem_iff.2 hm)
  | some r =>
      rw [routeMatch_eq_some_iff hd hp] at h
      rw [routeMatch_eq_some_iff hd' hp]
      simpa [hperm.mem_iff] using h

end Table

end TinyServer.Routing
