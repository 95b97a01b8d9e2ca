import TinyServer.Serve.Mount
import TinyServer.Serve.OpenFiles
import TinyServer.Serve.Slotwise
import TinyServer.Static.Memory

/-!
# The memory of a routed request

`staticRoute` says what `route_begin` asks of `static.c`. The arena of a slot is empty
whenever a request is routed (`Stance`), so that what `staticServeCalls_fit` says of one
call holds of every request in every state that a worker reaches (`allFit_iff`).
-/

set_option autoImplicit false

namespace TinyServer.Serve

open TinyServer.Http TinyServer.Net TinyServer.Proxy TinyServer.Static TinyServer.Routing
open TinyServer.Lib

/-- What `route_begin` and `serve_mount` ask of `static.c`: a path below a directory, or
one file. -/
inductive StaticRoute where
  | tree (dirFd : Option Nat) (useCache : Bool) (url : List UInt8) (urlLen : UInt16)
  | file (path : List UInt8)

namespace Turn

/-- The path of the request. -/
def path (t : Turn) : List UInt8 := (requestPath t.hc).1.take (requestPath t.hc).2.toNat

/-- The branches of `serve_mount`. -/
def mountRoute (t : Turn) (r : Route) : Option StaticRoute :=
  let cut := if 0 < r.pathPrefix.length ∧
      r.pathPrefix[r.pathPrefix.length - 1]? = some SLASH then r.pathPrefix.length - 1
    else r.pathPrefix.length
  if t.path.length ≤ cut then some (.tree r.dirFd false [SLASH] 1)
  else if t.path[cut]? ≠ some SLASH then none
  else some (.tree r.dirFd false ((requestPath t.hc).1.drop cut)
    (UInt16.ofNat (t.path.length - cut)))

/-- The branches of `route_begin` that answer from files. -/
def staticRoute (site : Site) (t : Turn) : Option StaticRoute :=
  let docroot := StaticRoute.tree site.docroot true (requestPath t.hc).1 (requestPath t.hc).2
  if site.routes.length = 1 ∧ site.routes.head?.any (·.primary) then some docroot
  else
    match t.route site with
    | none => none
    | some r =>
        if r.type ≠ .static then none
        else if r.exact then some (.file r.target)
        else if r.primary then some docroot
        else t.mountRoute r

/-- The handler after such an answer is armed. -/
def staticAnswer (site : Site) (t : Turn) (now : Nat) : StaticRoute → Handler
  | .tree dirFd useCache url urlLen =>
      t.toHandler.staticServe site.allowDotfiles dirFd useCache url urlLen t.path now
  | .file path => t.toHandler.staticBeginFile path now

/-- Its calls. -/
def staticCalls (site : Site) (t : Turn) (now : Nat) : StaticRoute → List StaticCall
  | .tree dirFd useCache url urlLen =>
      t.toHandler.staticServeCalls site.allowDotfiles dirFd useCache url urlLen t.path now
  | .file path => t.toHandler.staticBeginFileCalls path now

theorem serveMount_static {site : Site} {t : Turn} {r : Route} {q : StaticRoute} (now : Nat)
    (hroute : t.mountRoute r = some q) :
    t.routed.serveMount site r t.path now = t.routed.withHandler (t.staticAnswer site now q) := by
  unfold mountRoute at hroute
  simp only [serveMount]
  extract_lets cut at hroute
  change (if t.path.length ≤ cut then _ else if t.path[cut]? ≠ some SLASH then _ else _) = _
  split at hroute
  · rename_i hle
    cases hroute
    rw [if_pos hle]
    rfl
  · rename_i hle
    split at hroute
    · cases hroute
    · rename_i hslash
      cases hroute
      rw [if_neg hle, if_neg hslash]
      rfl

/-- `route_begin` on a static route. -/
theorem routeBegin_static {site : Site} {t : Turn} {r : StaticRoute} (fuel now : Nat)
    (hroute : t.staticRoute site = some r) :
    t.routeBegin site fuel now = some (.wantWrite, t.routed.withHandler (t.staticAnswer site now r)) := by
  unfold staticRoute at hroute
  unfold routeBegin
  split at hroute
  · rename_i hone
    cases hroute
    simp only [if_pos hone]
    rfl
  · rename_i hone
    simp only [if_neg hone]
    have hmatch : routeMatch site ((requestPath t.hc).1.take (requestPath t.hc).2.toNat)
        = t.route site := rfl
    rw [hmatch]
    cases hr : t.route site with
    | none =>
        rw [hr] at hroute
        cases hroute
    | some x =>
        rw [hr] at hroute
        dsimp only at hroute ⊢
        split at hroute
        · cases hroute
        · rename_i htype
          rw [not_not.1 htype]
          dsimp only
          split at hroute
          · rename_i hexact
            cases hroute
            rw [if_pos hexact]
            rfl
          · rename_i hexact
            rw [if_neg hexact]
            split at hroute
            · rename_i hprimary
              cases hroute
              rw [if_pos hprimary]
              rfl
            · rename_i hprimary
              rw [if_neg hprimary]
              exact congrArg (fun k => some (HttpIo.wantWrite, k)) (serveMount_static now hroute)

/-- The request names a directory of its route and does not end with a slash. -/
def AsksDirectory (site : Site) (t : Turn) (now : Nat) (r : StaticRoute) : Prop :=
  ∃ dirFd useCache url urlLen, r = .tree dirFd useCache url urlLen ∧
    Handler.AsksDirectory site.allowDotfiles t.toHandler dirFd useCache url urlLen now

theorem staticCalls_fit {site : Site} {t : Turn} (now : Nat) (hempty : t.Empty) (hok : t.cache.Ok)
    (r : StaticRoute) : AllFit (t.staticCalls site now r) ↔
      ¬ (t.AsksDirectory site now r ∧ 4096 < t.toHandler.redirectNeed t.path) := by
  cases r with
  | tree dirFd useCache url urlLen =>
      refine (Handler.staticServeCalls_fit site.allowDotfiles dirFd useCache url urlLen t.path now
        hempty.2 hok).trans (not_congr (and_congr_left fun _ => ?_))
      constructor
      · exact fun hask => ⟨dirFd, useCache, url, urlLen, rfl, hask⟩
      · rintro ⟨_, _, _, _, heq, hask⟩
        cases heq
        exact hask
  | file path =>
      refine ⟨fun _ => ?_, fun _ => Handler.staticBeginFileCalls_fit t.toHandler path now hempty.2⟩
      rintro ⟨⟨_, _, _, _, heq, -⟩, -⟩
      cases heq

theorem AsksDirectory.short {site : Site} {t : Turn} {now : Nat} {r : StaticRoute} (hempty : t.Empty)
    (hask : t.AsksDirectory site now r) (hlong : 4096 < t.toHandler.redirectNeed t.path) :
    (t.staticAnswer site now r).hc.statusCode = 500 := by
  obtain ⟨dirFd, useCache, url, urlLen, rfl, hask⟩ := hask
  exact hask.short hempty.2 hlong

end Turn

/-- In every state that a worker reaches, the memory suffices for a static request if and
only if it is not redirected to a directory with a path and a query that leave no room for
the rest of the head; where it does not suffice, the answer is a 500. -/
theorem allFit_iff (site : Site) (fuel n : Nat) (as : List Action) {w : Worker}
    (hw : w ∈ runStates (Worker.step site fuel) (Worker.start n) as) {loop : Bool} {t : Turn}
    (hrouting : w.Handling site fuel anyState (.routing loop) t) {r : StaticRoute}
    (hroute : t.staticRoute site = some r) (now : Nat) :
    (AllFit (t.staticCalls site now r) ↔
        ¬ (t.AsksDirectory site now r ∧
          4096 < 161 + t.path.length +
            (if t.toHandler.query = [] then 0 else 1 + t.toHandler.query.length))) ∧
      ∃ t', t.routeBegin site fuel now = some (.wantWrite, t') ∧
        (¬ AllFit (t.staticCalls site now r) → t'.hc.statusCode = 500) := by
  have hstance := reachable_stance hw hrouting
  have hempty := hstance.empty rfl
  have hfit := @Turn.staticCalls_fit site t now hempty hstance.fit.cache r
  have hneed : t.toHandler.redirectNeed t.path = 161 + t.path.length +
      (if t.toHandler.query = [] then 0 else 1 + t.toHandler.query.length) := by
    rw [Handler.redirectNeed]
    omega
  refine ⟨hneed ▸ hfit, _, Turn.routeBegin_static fuel now hroute, fun hno => ?_⟩
  obtain ⟨hask, hlong⟩ := not_not.1 (mt hfit.2 hno)
  exact hask.short hempty hlong

/-! ## A long query -/

/-- A request for a directory, with a query of `n` bytes. -/
def directoryHead (n : Nat) : List UInt8 :=
  cstr "GET /d?" ++ List.replicate n 0x61 ++ cstr " HTTP/1.1\r\nHost: h\r\n\r\n"

/-- The record of a request for a directory with a query of `n` bytes. -/
def directoryRequest (n : Nat) : HttpRequest :=
  { HttpRequest.zero with
    target := ⟨4, 3 + n⟩
    path := ⟨4, 2⟩
    query := ⟨7, n⟩
    host := ⟨24 + n, 1⟩
    headerBlock := ⟨18 + n, 9⟩
    headerBytes := 29 + n
    method := .get
    minorVersion := 1 }

/-- The client sends it. -/
def directorySched (n : Nat) : Schedule :=
  { Schedule.quiet with clientReads := [.data (directoryHead n)] }

/-- The path is a directory. -/
def directoryDisk : Disk :=
  { Disk.quiet with opens := [.opened 50], fstats := [some ⟨.directory, 4096, 0, 0, 1⟩] }

/-- The handler before the request is routed. -/
def directoryTurn (n : Nat) : Turn :=
  let t := (Worker.start 1).admitted .unused 10 0 [] (directorySched n) directoryDisk
  (t.afterRead.2.received (directoryHead n) 0).parsed (directoryRequest n)

/-- The route of the request. -/
def directoryRoute (n : Nat) : StaticRoute :=
  .tree (some 3) true (requestPath (directoryTurn n).hc).1 (requestPath (directoryTurn n).hc).2

/-- The first request of a worker comes in one piece. -/
theorem first_acts {site : Site} {fuel : Nat} {ok : Point → Turn → Prop} {sched : Schedule}
    {disk : Disk} {head : List UInt8} {req : HttpRequest}
    (hok : ∀ p t, (∀ loop, p ≠ .routing loop) → ok p t) (hparse : httpParseRequest head = .ok req)
    (hread : ((Worker.start 1).admitted .unused 10 0 [] sched disk).afterRead.1 = .got head)
    (hne : head ≠ []) :
    ActsIn site fuel 0 0 ok (.rest, (Worker.start 1).admitted .unused 10 0 [] sched disk)
      (.routing true, ((((Worker.start 1).admitted .unused 10 0 [] sched disk).afterRead.2.received
        head 0).parsed req)) := by
  have hdue : ¬ 0 + TINY_READ_TIMEOUT_MS ≤ 0 := by decide
  have hroom : ¬ TINY_HEADER_SIZE ≤ 0 := by decide
  have hused : head.length ≠ 0 := fun h => hne (List.length_eq_zero_iff.1 h)
  refine .tail (.tail (.single ⟨hok _ _ nofun, .start _ rfl rfl rfl hdue rfl⟩)
    ⟨hok _ _ nofun, .receive _ head hroom hread⟩) ⟨hok _ _ nofun, .parse _ req true ?_ hparse⟩
  exact hused

theorem directory_routing {n : Nat}
    (hparse : httpParseRequest (directoryHead n) = .ok (directoryRequest n))
    (hread : ((Worker.start 1).admitted .unused 10 0 [] (directorySched n)
      directoryDisk).afterRead.1 = .got (directoryHead n)) :
    (Worker.start 1).Handling fileSite 20 anyState (.routing true) (directoryTurn n) := by
  refine .enter 10 0 0 [] .unused (directorySched n) directoryDisk rfl rfl rfl rfl
    (first_acts (fun _ _ _ => trivial) hparse hread ?_)
  simp [directoryHead, cstr]

/-- A short query fits. -/
theorem allFit_iff_short :
    AllFit ((directoryTurn 3).staticCalls fileSite 0 (directoryRoute 3)) :=
  (allFit_iff fileSite 20 1 [] (List.mem_singleton_self _)
    (directory_routing (by decide +kernel) (by decide +kernel)) rfl 0).1.2
      (fun h => absurd h.2 (by decide +kernel))

set_option maxRecDepth 10000 in
/-- The head of 3979 bytes fits the buffer, the redirect to it does not fit the arena. -/
theorem longQuery_short : (directoryHead 3950).length = 3979 ∧
    (Worker.start 1).Handling fileSite 20 anyState (.routing true) (directoryTurn 3950) ∧
    (directoryTurn 3950).staticRoute fileSite = some (directoryRoute 3950) ∧
    (∃ c ∈ (directoryTurn 3950).staticCalls fileSite 0 (directoryRoute 3950), ¬ c.Fits) ∧
    ((directoryTurn 3950).routeBegin fileSite 20 0).any
      (fun r => decide (r.2.hc.statusCode = 500)) = true :=
  ⟨by decide +kernel, directory_routing (by decide +kernel) (by decide +kernel), rfl,
    by decide +kernel, by decide +kernel⟩

end TinyServer.Serve
