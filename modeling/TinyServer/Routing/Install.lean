import TinyServer.Net.Descriptors
import TinyServer.Routing.Config

/-!
# The installed table (`routes.c`, `static.c`)

`Router` is the state that `routes_init` and `routes_shutdown` share: `g_site`, `g_ready`,
the `docroot_fd` of `static.c`, and the record of the calls on descriptors so far, which
no code reads.

For the route with index `i`, `kinds i` is the result of `stat` and `fds i` that of the
`open` that may follow.
-/

set_option autoImplicit false

namespace TinyServer.Routing

open TinyServer.Http TinyServer.Net TinyServer.Static

/-- The errors of `routes_init`, in the order of the source. -/
inductive InitError where
  | missingPort
  | statFailed (target : List UInt8)
  | slashTooLong
  | secondRoot
  | docrootFailed
  | openFailed (target : List UInt8)
  | fileRouteSlash (pathPrefix : List UInt8)
  | notFileOrDirectory (target : List UInt8)
  | duplicateRoute (pathPrefix : List UInt8)
  deriving DecidableEq, Repr

/-- What `routes.c` and `static.c` keep between calls, and the calls they made. -/
structure Router where
  site : TinySite
  ready : Bool
  docroot : Option Nat
  calls : List ControlCall

namespace Router

/-- The state of a new process: static storage is zero, `docroot_fd` is -1. -/
def start : Router where
  site :=
    { port := 0
      nroutes := 0
      routes := List.replicate TINY_MAX_ROUTES .zero
      routes_length := List.length_replicate
      nroutes_le := Nat.zero_le _ }
  ready := false
  docroot := none
  calls := []

/-- A call is recorded. -/
def call (g : Router) (c : ControlCall) : Router := { g with calls := g.calls ++ [c] }

/-- `g_site.routes[i] = r`. -/
def put (g : Router) (i : Nat) (r : TinyRoute) : Router :=
  { g with site := { g.site with
      routes := g.site.routes.set i r
      routes_length := by rw [List.length_set, g.site.routes_length] } }

/-- What the router reads, with the policy of `static.c`. -/
def table (g : Router) (allowDotfiles : Bool) : Site where
  routes := g.site.listed.map TinyRoute.route
  docroot := g.docroot
  allowDotfiles := allowDotfiles

/-! ## Shutting down -/

/-- `static_shutdown`. -/
def staticShutdown (g : Router) : Router :=
  match g.docroot with
  | none => g
  | some fd => { g.call (.close fd) with docroot := none }

/-- The loop of `routes_shutdown`, for `n` routes from index `i` on. -/
def closeDirs : Nat → Nat → Router → Router
  | 0, _, g => g
  | n + 1, i, g =>
      match g.site.routes[i]? with
      | none => g
      | some r =>
          match r.dirFd with
          | none => closeDirs n (i + 1) g
          | some fd => closeDirs n (i + 1) ((g.call (.close fd)).put i { r with dirFd := none })

/-- `routes_shutdown`. -/
def routesShutdown (g : Router) : Router :=
  let n := g.site.nroutes
  let ready := g.ready
  let g := closeDirs n 0 g
  let g := if ready = true ∨ n ≠ 0 then g.staticShutdown else g
  { g with ready := false, site := { g.site with nroutes := 0, nroutes_le := Nat.zero_le _ } }

/-! ## Installing -/

/-- `static_init`, with the result of its `open`; `false` for -1. -/
def staticInit (g : Router) (docroot : List UInt8) (fd : Option Nat) : Bool × Router :=
  if docroot = [] then (false, g)
  else
    let g := g.call (.openFile docroot fd)
    match fd with
    | none => (false, g)
    | some fd => (true, { g with docroot := some fd })

/-- The body of the first loop of `routes_init`: `r` is written to the table as the source
edits it, and the result is the new value of `primary`. -/
def initRoute (g : Router) (i : Nat) (kind : Option FileKind) (fd : Option Nat) (primary : Bool)
    (src : TinyRoute) : Except InitError Bool × Router :=
  -- the three fields that `routes_init` sets itself
  let r := { src with dirFd := none, exact := false, primary := false }
  if r.type ≠ .static then (.ok primary, g.put i r)
  else
    match kind with
    | none => (.error (.statFailed r.target), g.put i r)
    | some .directory =>
        match ensureDirSlash r with
        | none => (.error .slashTooLong, g.put i r)
        | some r =>
            let g := g.put i r
            -- the root directory becomes the docroot of the server
            if r.prefixLen = 1 ∧ r.prefixAt 0 = SLASH then
              if primary then (.error .secondRoot, g)
              else
                match g.staticInit r.target fd with
                | (false, g) => (.error .docrootFailed, g)
                | (true, g) => (.ok true, g.put i { r with primary := true })
            else
              -- any other directory is opened and kept open
              let g := g.call (.openFile r.target fd)
              match fd with
              | none => (.error (.openFailed r.target), g)
              | some fd => (.ok primary, g.put i { r with dirFd := some fd })
    | some .regular =>
        if r.prefixAt (r.prefixLen - 1) = SLASH ∧ 1 < r.prefixLen then
          (.error (.fileRouteSlash r.pathPrefix), g.put i r)
        -- a file is opened anew for each request
        else (.ok primary, g.put i { r with exact := true })
    | some .other => (.error (.notFileOrDirectory r.target), g.put i r)

/-- The first loop of `routes_init`, over the routes of the given site from index `i` on. -/
def initLoop (kinds : Nat → Option FileKind) (fds : Nat → Option Nat) :
    Nat → Bool → List TinyRoute → Router → Except InitError Unit × Router
  | _, _, [], g => (.ok (), g)
  | i, primary, src :: rest, g =>
      match g.initRoute i (kinds i) (fds i) primary src with
      | (.error e, g) => (.error e, g)
      | (.ok primary, g) => initLoop kinds fds (i + 1) primary rest g

/-- `routes_init` after `routes_shutdown` and `site_clear`. -/
def install (kinds : Nat → Option FileKind) (fds : Nat → Option Nat) (site : TinySite)
    (g : Router) : Except InitError Unit × Router :=
  let g := { g with site := { g.site with
    port := site.port, nroutes := site.nroutes, nroutes_le := site.nroutes_le } }
  match initLoop kinds fds 0 false site.listed g with
  -- whatever was opened before the failure is closed
  | (.error e, g) => (.error e, g.routesShutdown)
  | (.ok _, g) =>
      match firstDuplicate [] g.site.listed with
      | some r => (.error (.duplicateRoute r.pathPrefix), g.routesShutdown)
      | none => (.ok (), { g with ready := true })

/-- `routes_init`; the site is `none` for a null pointer. -/
def routesInit (kinds : Nat → Option FileKind) (fds : Nat → Option Nat) (site : Option TinySite)
    (g : Router) : Except InitError Unit × Router :=
  let g := { g.routesShutdown with site := siteClear }
  match site with
  | none => (.error .missingPort, g)
  | some site => if site.port = 0 then (.error .missingPort, g) else install kinds fds site g

end Router

end TinyServer.Routing
