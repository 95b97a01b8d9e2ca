import TinyServer.Http.AbsoluteForm
import TinyServer.Routing.Selected
import TinyServer.Serve.Turn

/-!
# The route of a request (`route_begin`, `serve_mount`)

The path of an accepted request begins with a slash (`requestPath_head`), so a route that
matches it claims it, and what is left of the path below a directory begins with a slash
again (`serveMount_eq`). `routeMatch_selects` puts together what the table decides.
-/

set_option autoImplicit false

namespace TinyServer.Serve

open TinyServer.Http TinyServer.Net TinyServer.Static TinyServer.Routing

/-! ## The path of a request -/

/-- The path that the handlers see. -/
theorem requestPath_asked {hc : HttpConn} (h : httpParseRequest hc.buf = .ok hc.req) :
    (requestPath hc).1.take (requestPath hc).2.toNat
      = askedPath (hc.req.path.bytes hc.buf) := by
  obtain ⟨hd, hacc⟩ := exists_head_of_accept h
  have hslice := hacc.slices.1
  have hbuf : hd.requestLine.length ≤ hc.buf.length := by
    have h₁ := hacc.starts.length_le
    have h₂ := hd.render_length
    simp only [Head.blockOff] at h₂
    omega
  have hlen : hc.req.path.len < UInt16.size := by
    have h₁ := hacc.short
    have h₂ := hd.render_length
    simp only [HTTP_PARSE_MAX_LEN, Head.blockOff] at h₁ h₂
    simp only [UInt16.size]
    omega
  by_cases h₀ : hc.req.path.len = 0
  · simp [requestPath, h₀, HttpSlice.bytes, askedPath]
  · have hne : hc.req.path.bytes hc.buf ≠ [] := by
      intro he
      have := congrArg List.length he
      simp [HttpSlice.bytes] at this
      omega
    rw [requestPath, if_neg h₀, askedPath, if_neg hne, HttpSlice.bytes]
    simp [Nat.mod_eq_of_lt hlen]

theorem askedPath_head {t : Target} : (askedPath t.pathText).head? = some SLASH := by
  by_cases h : t.pathText = []
  · simp [askedPath, h]
  · rw [askedPath, if_neg h]
    rcases t.path_head with hp | hp
    · simp [Target.pathText, hp] at h
    · obtain ⟨c, p, hc⟩ := List.exists_cons_of_ne_nil (l := t.path) (by intro e; simp [e] at hp)
      rw [hc] at hp
      obtain rfl : c = SLASH := by simpa using hp
      rw [Target.pathText, hc, List.takeWhile_cons_of_pos (by decide)]
      rfl

theorem requestPath_head {hc : HttpConn} (h : httpParseRequest hc.buf = .ok hc.req) :
    ((requestPath hc).1.take (requestPath hc).2.toNat).head? = some SLASH := by
  obtain ⟨hd, hacc⟩ := exists_head_of_accept h
  obtain ⟨tail, htail⟩ := hacc.starts
  rw [requestPath_asked h, ← htail, (hacc.result.texts hacc.short tail).1]
  exact askedPath_head

/-! ## Mounts -/

/-- What is left of a path below a mount. -/
def remainder (stem path : List UInt8) : List UInt8 :=
  if path.length ≤ stem.length then [SLASH] else path.drop stem.length

theorem remainder_head {stem path : List UInt8} (h : Beneath stem path) :
    (remainder stem path).head? = some SLASH := by
  rcases h with rfl | ⟨t, rfl⟩
  · simp [remainder]
  · rw [remainder, if_neg (by simp)]
    simp

/-- `serve_mount` cuts the stem off. -/
theorem cut_eq (r : Route) : (if 0 < r.pathPrefix.length ∧
    r.pathPrefix[r.pathPrefix.length - 1]? = some SLASH then r.pathPrefix.length - 1
    else r.pathPrefix.length) = r.stem.length := by
  rw [← List.getLast?_eq_getElem?, Route.stem]
  by_cases hs : r.pathPrefix.getLast? = some SLASH
  · have hne : r.pathPrefix ≠ [] := by
      rintro e
      simp [e] at hs
    simp [hs, List.length_pos_iff.2 hne]
  · simp [hs]

/-- Past the stem there is a slash, and from there on the path is what is left of it. -/
theorem drop_stem {stem path : List UInt8} {hc : HttpConn} (h : Beneath stem path)
    (hpath : (requestPath hc).1.take (requestPath hc).2.toNat = path)
    (hle : ¬ path.length ≤ stem.length) :
    path[stem.length]? = some SLASH ∧
      ((requestPath hc).1.drop stem.length).take (UInt16.ofNat (path.length - stem.length)).toNat
        = remainder stem path := by
  constructor
  · rcases h with rfl | ⟨s, rfl⟩
    · exact absurd le_rfl hle
    · simp
  · have hshort : path.length < UInt16.size := by
      have h₁ := (requestPath hc).2.toNat_lt
      rw [← hpath, List.length_take]
      simp only [UInt16.size]
      omega
    have htake : (requestPath hc).1.take path.length = path := by
      conv_rhs => rw [← hpath]
      rw [← hpath, List.length_take, List.take_eq_take_min]
      simp
    have hlen : (UInt16.ofNat (path.length - stem.length)).toNat = path.length - stem.length := by
      rw [UInt16.toNat_ofNat']
      exact Nat.mod_eq_of_lt (by simp only [UInt16.size] at hshort; omega)
    rw [hlen, remainder, if_neg hle, ← List.drop_take, htake]

/-- `serve_mount` hands on what is left of the path: its 500 is for no path of the route. -/
theorem serveMount_eq (site : Site) (t : Turn) {r : Route} {path : List UInt8} (now : Nat)
    (h : Beneath r.stem path)
    (hpath : (requestPath t.hc).1.take (requestPath t.hc).2.toNat = path) :
    ∃ url len, url.take len.toNat = remainder r.stem path ∧
      t.serveMount site r path now
        = t.withHandler (t.toHandler.staticServe site.allowDotfiles r.dirFd false url len path
            now) := by
  unfold Turn.serveMount
  simp only [cut_eq]
  by_cases hle : path.length ≤ r.stem.length
  · exact ⟨[SLASH], 1, by simp [remainder, hle], by rw [if_pos hle]⟩
  · obtain ⟨hslash, hrest⟩ := drop_stem h hpath hle
    exact ⟨_, _, hrest, by rw [if_neg hle, if_neg (not_not.2 hslash)]⟩

/-! ## What the table decides -/

/-- What the table decides about one path. -/
structure Selects (site : Site) (path : List UInt8) : Prop where
  none : routeMatch site path = none ↔ ∀ r ∈ site.routes, routeMatches r path = false
  longest : ∀ r, routeMatch site path = some r ↔
    r ∈ site.routes ∧ routeMatches r path = true ∧
      ∀ r' ∈ site.routes, routeMatches r' path = true → r' ≠ r →
        r'.pathPrefix.length < r.pathPrefix.length
  order : ∀ site' : Site, site.routes.Perm site'.routes →
    routeMatch site' path = routeMatch site path
  boundary : ∀ r ∈ site.routes, r.exact = false → routeMatches r path = true →
    Beneath r.stem path
  mount : ∀ r, routeMatch site path = some r →
    r.type = .static → r.exact = false → r.primary = false →
      ∀ (t : Turn) (now : Nat),
        (requestPath t.hc).1.take (requestPath t.hc).2.toNat = path →
          ∃ url len, (url.take len.toNat).head? = some SLASH ∧
            t.serveMount site r path now
              = t.withHandler (t.toHandler.staticServe site.allowDotfiles r.dirFd false url len
                  path now)

/-- `route_match` on an installed table: no route, or the one with the longest prefix, in
whatever order the routes are; and `serve_mount` has a path to serve below the mount. -/
theorem routeMatch_selects {kinds : Nat → Option FileKind} {fds : Nat → Option Nat}
    {site : Option TinySite} {g g' : Router}
    (h : Router.routesInit kinds fds site g = (.ok (), g')) (allowDotfiles : Bool)
    {path : List UInt8} (hpath : path.head? = some SLASH) :
    Selects (g'.table allowDotfiles) path := by
  obtain ⟨site, rfl⟩ : ∃ s, site = some s := by
    cases site with
    | none => cases h
    | some s => exact ⟨s, rfl⟩
  have hd : ((g'.table allowDotfiles).routes.map Route.pathPrefix).Nodup := by
    rw [Router.table_prefixes]
    exact (routesInit_ok h).2.2.2
  have hbeneath : ∀ r, r.exact = false → routeMatches r path = true → Beneath r.stem path := by
    intro r hx hm
    rcases (routeMatches_iff hpath).1 hm with ⟨hx', -⟩ | ⟨-, hb⟩
    · rw [hx] at hx'
      cases hx'
    · exact hb
  refine ⟨routeMatch_eq_none, fun r => routeMatch_eq_some_iff hd hpath,
    fun site' hperm => routeMatch_perm hd hpath hperm, fun r _ hx hm => hbeneath r hx hm, ?_⟩
  intro r hr _ hx _ t now ht
  have hb := hbeneath r hx (routeMatch_mem hr).2
  obtain ⟨url, len, hrem, heq⟩ := serveMount_eq (g'.table allowDotfiles) t now hb ht
  exact ⟨url, len, by rw [hrem]; exact remainder_head hb, heq⟩

theorem routeMatch_selects_mount :
    ∃ site g', tinySiteLoad (fun _ _ => none) (fun _ => some .directory)
        (some (cstr "listen 80\nstatic / ./www\nstatic /img ./images\n")) = .ok site ∧
      Router.routesInit (fun _ => some .directory) (fun i => some (i + 3)) (some site)
        .start = (.ok (), g') ∧
      Selects (g'.table false) (cstr "/img") := by
  obtain ⟨site, hload⟩ := exists_ok (x := tinySiteLoad (fun _ _ => none)
    (fun _ => some .directory)
    (some (cstr "listen 80\nstatic / ./www\nstatic /img ./images\n"))) (by decide +kernel)
  obtain ⟨g', hinit, -⟩ : ∃ g', Router.routesInit (fun _ => some .directory)
      (fun i => some (i + 3)) (some site) .start = (.ok (), g') ∧ _ :=
    (tinySiteLoad_loaded hload).routesInit (fun _ _ => rfl) .start
  exact ⟨site, g', hload, hinit, routeMatch_selects hinit false (by decide)⟩

end TinyServer.Serve
