import TinyServer.Http.Chars

/-!
# The route table (`routes.h`, `routes.c`)

`Site` is the installed `g_site` with the document root of `static.c`. `g_ready` and
the configuration a site is loaded from are not part of it.
-/

set_option autoImplicit false

namespace TinyServer.Routing

open TinyServer.Http

/-- `enum route_type`. -/
inductive RouteType where
  | none
  | static
  | proxy
  | app
  deriving DecidableEq, Repr

/-- `tiny_route`; `pathPrefix` is its `prefix`. -/
structure Route where
  type : RouteType
  exact : Bool
  primary : Bool
  dirFd : Option Nat
  pathPrefix : List UInt8
  target : List UInt8
  upstream : List UInt8
  upstreamLen : Nat
  deriving DecidableEq, Repr

/-- The table of routes with the document root. -/
structure Site where
  routes : List Route
  docroot : Option Nat
  allowDotfiles : Bool
  deriving DecidableEq, Repr

/-- `route_matches`. -/
def routeMatches (r : Route) (path : List UInt8) : Bool :=
  let n := r.pathPrefix.length
  -- a file route
  if r.exact then path.length == n && path == r.pathPrefix
  -- the root directory matches everything
  else if n = 1 ∧ r.pathPrefix.head? = some SLASH then true
  else if 0 < n ∧ r.pathPrefix[n - 1]? = some SLASH then
    -- a directory route without its slash, as for `/img` and the prefix `/img/`
    if path.length + 1 = n ∧ path = r.pathPrefix.take path.length then true
    else if n ≤ path.length ∧ path.take n = r.pathPrefix then true
    else false
  else if path.length < n ∨ path.take n ≠ r.pathPrefix then false
  -- a prefix without a slash ends where a segment does
  else path.length == n || path[n]? == some SLASH

/-- The loop of `route_match`, with the best match so far. -/
def routeMatchLoop (path : List UInt8) : List Route → Option Route → Option Route
  | [], best => best
  | r :: rs, best =>
      if !routeMatches r path then routeMatchLoop path rs best
      else
        match best with
        | none => routeMatchLoop path rs (some r)
        | some b =>
            -- only a longer prefix replaces the match, so the first of equals stays
            if b.pathPrefix.length < r.pathPrefix.length then routeMatchLoop path rs (some r)
            else routeMatchLoop path rs best

/-- `route_match`. -/
def routeMatch (site : Site) (path : List UInt8) : Option Route :=
  routeMatchLoop path site.routes none

end TinyServer.Routing
