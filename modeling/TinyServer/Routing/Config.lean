import TinyServer.Routing.Table
import TinyServer.Static.Files

/-!
# The site configuration (`routes.h`, `routes.c`)

`tiny_site_load` reads a file line by line, takes each line apart with `next_tok`, and
checks the table of routes it has made (`site_check`). A token is the bytes of the C
string; what `next_tok` leaves of a line is the rest of the string.

A `char` array of a route is the list of its bytes up to the last one written, and holds
zeros after them. What `stat` says about the target of route `i` is `kinds i`, what
`getaddrinfo` says is `resolve host port`. Where a function prints an error and returns
-1, it returns the matching `SiteError` with the line number that is printed.
-/

set_option autoImplicit false

namespace TinyServer.Routing

open TinyServer.Http TinyServer.Static

/-- `'#'`, before a comment. -/
abbrev HASH : UInt8 := 0x23

/-- The most routes of a site. -/
def TINY_MAX_ROUTES : Nat := 32

/-- The room for a prefix, with its end. -/
def TINY_PREFIX_MAX : Nat := 256

/-- The room for a target, with its end. -/
def TINY_TARGET_MAX : Nat := 512

/-- `sizeof(line)` in `tiny_site_load`. -/
def LINE_SIZE : Nat := 1024

/-- `sizeof(struct sockaddr_storage)`. -/
def SOCKADDR_SIZE : Nat := 128

/-! ## Sites -/

/-- `tiny_route` with its lengths; `Route` is what the router reads of it. -/
structure TinyRoute where
  type : RouteType
  exact : Bool
  primary : Bool
  prefixLen : Nat
  targetLen : Nat
  dirFd : Option Nat
  pathPrefix : List UInt8
  target : List UInt8
  upstream : List UInt8
  upstreamLen : Nat
  deriving DecidableEq, Repr

namespace TinyRoute

/-- A route of all zeros. -/
def zero : TinyRoute := ⟨.none, false, false, 0, 0, some 0, [], [], [], 0⟩

/-- A route as `site_clear` leaves it. -/
def cleared : TinyRoute := { zero with dirFd := none }

/-- `r->prefix[i]`. -/
def prefixAt (r : TinyRoute) (i : Nat) : UInt8 := r.pathPrefix.getD i 0

/-- The first `prefix_len` bytes of `r->prefix`. -/
def prefixBytes (r : TinyRoute) : List UInt8 := r.pathPrefix.takeD r.prefixLen 0

/-- What the router reads. -/
def route (r : TinyRoute) : Route where
  type := r.type
  exact := r.exact
  primary := r.primary
  dirFd := r.dirFd
  pathPrefix := r.prefixBytes
  target := r.target
  upstream := r.upstream
  upstreamLen := r.upstreamLen

end TinyRoute

/-- `tiny_site`. -/
@[ext] structure TinySite where
  port : Nat
  nroutes : Nat
  routes : List TinyRoute
  routes_length : routes.length = TINY_MAX_ROUTES
  nroutes_le : nroutes ≤ TINY_MAX_ROUTES

/-- `site_clear`. -/
def siteClear : TinySite where
  port := 0
  nroutes := 0
  routes := List.replicate TINY_MAX_ROUTES .cleared
  routes_length := List.length_replicate
  nroutes_le := Nat.zero_le _

namespace TinySite

/-- The first `nroutes` routes. -/
def listed (s : TinySite) : List TinyRoute := s.routes.take s.nroutes

/-- The site with other routes in place of its first ones. -/
def withListed (s : TinySite) (rs : List TinyRoute) (h : rs.length = s.nroutes) : TinySite :=
  { s with
    routes := rs ++ s.routes.drop s.nroutes
    routes_length := by
      have h₁ := s.routes_length
      have h₂ := s.nroutes_le
      rw [List.length_append, List.length_drop]
      omega }

end TinySite

/-! ## Tokens -/

/-- A byte that `next_tok` takes into a token. -/
def isTokenChar (c : UInt8) : Bool := !(c == SP || c == HTAB || c == LF || c == CR || c == HASH)

/-- `next_tok`: the token, unless the line is done, and what is left of the line. -/
def nextTok (p : List UInt8) : Option (List UInt8) × List UInt8 :=
  match p.dropWhile isOws with
  | [] => (none, [])
  | c :: p =>
      -- the rest of the line is a comment, or the line ends
      if c = HASH ∨ c = LF ∨ c = CR then (none, c :: p)
      else
        let tok := (c :: p).takeWhile isTokenChar
        match (c :: p).dropWhile isTokenChar with
        | [] => (some tok, [])
        -- the `#` that ends a token is written over, so the next scan finds the end of the string
        | d :: rest => if d = HASH then (some tok, []) else (some tok, rest)

/-- `fgets(line, n + 1, fp)` on the bytes left in the file. -/
def fgets : Nat → List UInt8 → List UInt8 × List UInt8
  | 0, text => ([], text)
  | _ + 1, [] => ([], [])
  | n + 1, c :: text =>
      if c = LF then ([c], text)
      else
        let r := fgets n text
        (c :: r.1, r.2)

/-- The C string at the start of an array. -/
def cstring (a : List UInt8) : List UInt8 := a.takeWhile (· != 0)

/-- `copy_token`, with the length it returns. -/
def copyToken (cap : Nat) (src : List UInt8) : Option (List UInt8 × Nat) :=
  if src.length = 0 ∨ cap ≤ src.length then none else some (src, src.length)

/-- `prefix_ok`. -/
def prefixOk (p : List UInt8) : Bool :=
  if p.head? = some SLASH then p.all fun c => !(c ≤ 0x20 || 0x7f ≤ c) else false

/-- The loop of `parse_port_token` and the check after it. -/
def portLoop : List UInt8 → Nat → Option Nat
  | [], v => if v = 0 then none else some v
  | c :: s, v =>
      if !isDigit c then none
      else
        let v := v * 10 + (c.toNat - 0x30)
        if 65535 < v then none else portLoop s v

/-- `parse_port_token`. -/
def parsePortToken (s : List UInt8) : Option Nat := if s = [] then none else portLoop s 0

/-- `strrchr`. -/
def strrchr (s : List UInt8) (c : UInt8) : Option Nat :=
  (memchr s.reverse c).map fun i => s.length - 1 - i

/-- The host and the port of `parse_upstream`, which fit `host[256]` and `port[8]`. -/
def splitUpstream (s : List UInt8) : Option (List UInt8 × List UInt8) :=
  if s = [] then none
  else if s.head? = some LBRACKET then
    match memchr s RBRACKET with
    | none => none
    | some rb =>
        -- `[host]:port`, the host not empty
        if s[rb + 1]? ≠ some COLON ∨ rb = 1 then none
        -- the sizes of `host[256]` and `port[8]`
        else if 256 ≤ rb - 1 ∨ 8 ≤ (s.drop (rb + 2)).length then none
        else some ((s.drop 1).take (rb - 1), s.drop (rb + 2))
  else
    match strrchr s COLON with
    | none => none
    | some colon =>
        -- the last colon, with something on either side
        if colon = 0 ∨ s.length ≤ colon + 1 then none
        else if 256 ≤ colon ∨ 8 ≤ (s.drop (colon + 1)).length then none
        else some (s.take colon, s.drop (colon + 1))

/-- `parse_upstream`: the bytes of the `sockaddr_storage` and the length of the address
in it. `resolve` is the first address that `getaddrinfo` finds. -/
def parseUpstream (resolve : List UInt8 → List UInt8 → Option (List UInt8)) (s : List UInt8) :
    Option (List UInt8 × Nat) :=
  match splitUpstream s with
  | none => none
  | some (host, port) =>
      match parsePortToken port with
      | none => none
      -- the number is only checked; `getaddrinfo` takes the text
      | some _ =>
          match resolve host port with
          | none => none
          | some addr =>
              if SOCKADDR_SIZE < addr.length then none
              else some (addr ++ List.replicate (SOCKADDR_SIZE - addr.length) 0, addr.length)

/-! ## Lines -/

/-- The errors of `tiny_site_load`, in the order of the source. -/
inductive SiteError where
  | tooManyRoutes (lineno : Nat)
  | prefixNotAbsolute (lineno : Nat)
  | prefixTooLong (lineno : Nat)
  | targetTooLong (lineno : Nat)
  | badUpstream (lineno : Nat) (target : List UInt8)
  | openFailed
  | lineTooLong (lineno : Nat)
  | listenUsage (lineno : Nat)
  | listenRepeated (lineno : Nat)
  | unknownDirective (lineno : Nat) (kw : List UInt8)
  | routeUsage (lineno : Nat) (kw : List UInt8)
  | missingListen
  | missingRoute
  | statFailed (target : List UInt8)
  | slashTooLong
  | fileRouteSlash (pathPrefix : List UInt8)
  | notFileOrDirectory (target : List UInt8)
  | needService
  | duplicateRoute (pathPrefix : List UInt8)
  deriving DecidableEq, Repr

section Load

variable (resolve : List UInt8 → List UInt8 → Option (List UInt8))

/-- The route that `add_route` writes. -/
def newRoute (type : RouteType) (pathPrefix target : List UInt8) (lineno : Nat) :
    Except SiteError TinyRoute :=
  if !prefixOk pathPrefix then .error (.prefixNotAbsolute lineno)
  else
    match copyToken TINY_PREFIX_MAX pathPrefix with
    | none => .error (.prefixTooLong lineno)
    | some (pathPrefix, prefixLen) =>
        match copyToken TINY_TARGET_MAX target with
        | none => .error (.targetTooLong lineno)
        | some (target, targetLen) =>
            let r := { TinyRoute.cleared with
              type := type
              pathPrefix := pathPrefix
              prefixLen := prefixLen
              target := target
              targetLen := targetLen }
            if type = .proxy then
              match parseUpstream resolve target with
              | none => .error (.badUpstream lineno target)
              -- a proxy route keeps the address, and the text of its target as well
              | some (upstream, len) => .ok { r with upstream := upstream, upstreamLen := len }
            else .ok r

/-- `add_route`. -/
def addRoute (site : TinySite) (type : RouteType) (pathPrefix target : List UInt8)
    (lineno : Nat) : Except SiteError TinySite :=
  if h : TINY_MAX_ROUTES ≤ site.nroutes then .error (.tooManyRoutes lineno)
  else
    match newRoute resolve type pathPrefix target lineno with
    | .error e => .error e
    | .ok r =>
        .ok { site with
          nroutes := site.nroutes + 1
          routes := site.routes.set site.nroutes r
          -- the new route takes the first free place of the array
          routes_length := by rw [List.length_set, site.routes_length]
          nroutes_le := by omega }

/-- The locals of `tiny_site_load` between two lines. -/
structure Loading where
  site : TinySite
  lineno : Nat
  sawListen : Bool

/-- A `listen` line after its keyword. -/
def listenLine (l : Loading) (p : List UInt8) : Except SiteError Loading :=
  match nextTok p with
  | (none, _) => .error (.listenUsage l.lineno)
  | (some a, p) =>
      match nextTok p with
      -- more than one word after `listen`
      | (some _, _) => .error (.listenUsage l.lineno)
      | (none, _) =>
          match parsePortToken a with
          | none => .error (.listenUsage l.lineno)
          | some port =>
              -- a second `listen` is an error, even with the same port
              if l.sawListen then .error (.listenRepeated l.lineno)
              else .ok { l with site := { l.site with port := port }, sawListen := true }

/-- The type of a route with this keyword. -/
def routeType (kw : List UInt8) : RouteType :=
  if kw = cstr "proxy" then .proxy else if kw = cstr "app" then .app else .static

/-- A route line after its keyword. -/
def routeLine (l : Loading) (kw p : List UInt8) : Except SiteError Loading :=
  match nextTok p with
  | (none, _) => .error (.routeUsage l.lineno kw)
  | (some a, p) =>
      match nextTok p with
      | (none, _) => .error (.routeUsage l.lineno kw)
      | (some b, p) =>
          match nextTok p with
          -- more than two words after the keyword
          | (some _, _) => .error (.routeUsage l.lineno kw)
          | (none, _) =>
              match addRoute resolve l.site (routeType kw) a b l.lineno with
              | .error e => .error e
              | .ok site => .ok { l with site := site }

/-- The body of the loop of `tiny_site_load` for the bytes that `fgets` put into `line`. -/
def loadLine (l : Loading) (line : List UInt8) : Except SiteError Loading :=
  let l := { l with lineno := l.lineno + 1 }
  let s := cstring line
  -- `fgets` filled the buffer before the end of the line
  if s.length = LINE_SIZE - 1 ∧ s.getLast? ≠ some LF then .error (.lineTooLong l.lineno)
  else
    match nextTok s with
    -- a blank line, or only a comment
    | (none, _) => .ok l
    | (some kw, p) =>
        if kw = cstr "listen" then listenLine l p
        else if kw ≠ cstr "static" ∧ kw ≠ cstr "proxy" ∧ kw ≠ cstr "app" then
          .error (.unknownDirective l.lineno kw)
        else routeLine resolve l kw p

/-- The loop of `tiny_site_load`. A turn takes a byte or more, so the length of the text
bounds the number of turns. -/
def loadLoop : Nat → List UInt8 → Loading → Except SiteError Loading
  | 0, _, l => .ok l
  | n + 1, text, l =>
      if text = [] then .ok l
      else
        let r := fgets (LINE_SIZE - 1) text
        match loadLine resolve l r.1 with
        | .error e => .error e
        | .ok l => loadLoop n r.2 l

end Load

/-! ## Checks -/

/-- `same_prefix`. -/
def samePrefix (a b : TinyRoute) : Bool :=
  a.prefixLen == b.prefixLen && a.prefixBytes == b.prefixBytes

/-- `ensure_dir_slash`; `none` for -1. -/
def ensureDirSlash (r : TinyRoute) : Option TinyRoute :=
  if r.prefixLen = 1 ∧ r.prefixAt 0 = SLASH then some r
  else if r.prefixAt (r.prefixLen - 1) = SLASH then some r
  else if TINY_PREFIX_MAX ≤ r.prefixLen + 1 then none
  else some { r with pathPrefix := r.prefixBytes ++ [SLASH], prefixLen := r.prefixLen + 1 }

/-- The first route with the prefix of an earlier one. -/
def firstDuplicate (seen : List TinyRoute) : List TinyRoute → Option TinyRoute
  | [] => none
  | r :: rs => if seen.any (samePrefix r) then some r else firstDuplicate (seen ++ [r]) rs

/-- One turn of the first loop of `site_check`. -/
def checkRoute (kind : Option FileKind) (r : TinyRoute) : Except SiteError TinyRoute :=
  if r.type ≠ .static then .ok r
  else
    match kind with
    | none => .error (.statFailed r.target)
    | some .directory =>
        -- a directory route gets its slash here already
        match ensureDirSlash r with
        | none => .error .slashTooLong
        | some r => .ok r
    | some .regular =>
        -- a file route must not end in a slash
        if 1 < r.prefixLen ∧ r.prefixAt (r.prefixLen - 1) = SLASH then
          .error (.fileRouteSlash r.pathPrefix)
        else .ok r
    | some .other => .error (.notFileOrDirectory r.target)

/-- The first loop of `site_check` over the routes from index `i` on. -/
def checkRoutes (kinds : Nat → Option FileKind) : Nat → List TinyRoute →
    Except SiteError (List TinyRoute)
  | _, [] => .ok []
  | i, r :: rs =>
      match checkRoute (kinds i) r with
      | .error e => .error e
      | .ok r =>
          match checkRoutes kinds (i + 1) rs with
          | .error e => .error e
          | .ok rs => .ok (r :: rs)

/-- A route that makes a site serve something. -/
def isService (r : TinyRoute) : Bool := r.type == .proxy || r.type == .static

/-- The check of a route keeps it or refuses the file; it never drops one. -/
theorem checkRoutes_length {kinds : Nat → Option FileKind} {rs : List TinyRoute} :
    ∀ {i : Nat} {rs' : List TinyRoute}, checkRoutes kinds i rs = .ok rs' →
      rs'.length = rs.length := by
  induction rs with
  | nil =>
      intro i rs' h
      cases h
      rfl
  | cons r rs ih =>
      intro i rs' h
      simp only [checkRoutes] at h
      split at h
      · cases h
      split at h
      · cases h
      rename_i hrs
      cases h
      rw [List.length_cons, List.length_cons, ih hrs]

/-- `site_check`. -/
def siteCheck (kinds : Nat → Option FileKind) (site : TinySite) : Except SiteError TinySite :=
  if site.nroutes = 0 then .error .missingRoute
  else
    match h : checkRoutes kinds 0 site.listed with
    | .error e => .error e
    | .ok rs =>
        -- at least one route that serves something
        if !rs.any isService then .error .needService
        else
          match firstDuplicate [] rs with
          | some r => .error (.duplicateRoute r.pathPrefix)
          | none => .ok (site.withListed rs (by
              rw [checkRoutes_length h, TinySite.listed, List.length_take, site.routes_length,
                Nat.min_eq_left site.nroutes_le]))

/-- `tiny_site_load`; the file is `none` where it cannot be opened. -/
def tinySiteLoad (resolve : List UInt8 → List UInt8 → Option (List UInt8))
    (kinds : Nat → Option FileKind) (file : Option (List UInt8)) : Except SiteError TinySite :=
  match file with
  | none => .error .openFailed
  | some text =>
      match loadLoop resolve text.length text ⟨siteClear, 0, false⟩ with
      | .error e => .error e
      | .ok l => if !l.sawListen then .error .missingListen else siteCheck kinds l.site

end TinyServer.Routing
