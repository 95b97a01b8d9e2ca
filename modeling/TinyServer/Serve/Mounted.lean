import TinyServer.Serve.Capped
import TinyServer.Serve.Honest
import TinyServer.Static.Below

/-!
# A directory below the docroot and the same directory as a mount

The docroot has its table of open files and the whole path, a mount has no table and what is
left of the path. Both answer as the tree does (`FromDocroot.answers`, `FromMount.answers`),
so that below the directory they give the same answers (`mounted_answers`). They differ for
the name of the directory alone, which the docroot redirects and the mount serves.
-/

set_option autoImplicit false

namespace TinyServer.Serve

open TinyServer.Http TinyServer.Net TinyServer.Proxy TinyServer.Static TinyServer.Routing
open TinyServer.Lib

/-! ## Answers from a tree -/

/-- `route_begin` answers the request with `r`, where the files are those of the tree. -/
def Turn.Answers (T : Tree) (site : Site) (fuel now : Nat) (t : Turn) (r : Static.Answer) : Prop :=
  ∃ q t', t.staticRoute site = some q ∧ t.routeBegin site fuel now = some (.wantWrite, t') ∧
    t'.toHandler.shown T (t.staticCalls site now q) = r

/-- The docroot of the site answers the request of `t`, and it found only what is in the
tree since the worker started. -/
structure FromDocroot (T : Tree) (site : Site) (fuel now : Nat) (t : Turn) : Prop where
  run : ∃ n as w idx t₀ loop,
    AllSteps (Worker.step site fuel) (Worker.HonestStep T site fuel) (Worker.start n) as ∧
      w ∈ runStates (Worker.step site fuel) (Worker.start n) as ∧ w.exited = false ∧
      w.Entry idx now t₀ ∧
      ActsIn site fuel now idx (Turn.Honest T site now) (.rest, t₀) (.routing loop, t)
  opened : site.docroot ≠ none
  route : t.staticRoute site
    = some (.tree site.docroot true (requestPath t.hc).1 (requestPath t.hc).2)
  honest : AllHonest T (t.docrootCalls site now)

/-- The mount `/d` of the site answers the request of `t`, and finds what is in the tree. -/
structure FromMount (T : Tree) (d : List UInt8) (site : Site) (fuel now : Nat) (t : Turn) :
    Prop where
  run : ∃ n as w loop, w ∈ runStates (Worker.step site fuel) (Worker.start n) as ∧
    w.Handling site fuel anyState (.routing loop) t
  route : ∃ r, t.route site = some r ∧ r.type = .static ∧ r.exact = false ∧ r.primary = false ∧
    r.stem = SLASH :: d ∧ r.dirFd ≠ none
  honest : ∀ q, t.staticRoute site = some q → AllHonest T (t.staticCalls site now q)

section Answers

variable {T : Tree} {site : Site} {fuel now : Nat} {t : Turn} {d : List UInt8}

/-- A path below a directory that is served, with what `static_serve` is told of it. -/
theorem answers_of_route {dirFd : Option Nat} {useCache : Bool} {url : List UInt8} {urlLen : UInt16}
    (hroute : t.staticRoute site = some (.tree dirFd useCache url urlLen)) (hempty : t.Empty)
    (hmethod : t.hc.req.method = .get ∨ t.hc.req.method = .head) (hdir : dirFd ≠ none)
    (hagrees : useCache = true → T.Agrees t.cache)
    (hhonest : AllHonest T (t.staticCalls site now (.tree dirFd useCache url urlLen))) :
    t.Answers T site fuel now (T.answer site.allowDotfiles t.hc.req t.toHandler.query t.path
      (percentDecode url urlLen STATIC_PATH_MAX)) :=
  ⟨_, _, hroute, Turn.routeBegin_static fuel now hroute,
    (Handler.staticServe_honest site.allowDotfiles useCache url urlLen t.path hempty.2 hempty.1
      hmethod hdir hagrees hhonest).2⟩

theorem FromDocroot.answers (h : FromDocroot T site fuel now t)
    (hmethod : t.hc.req.method = .get ∨ t.hc.req.method = .head) :
    t.Answers T site fuel now (T.answer site.allowDotfiles t.hc.req t.toHandler.query t.path
      (percentDecode (requestPath t.hc).1 (requestPath t.hc).2 STATIC_PATH_MAX)) := by
  obtain ⟨n, as, w, idx, t₀, loop, hall, hw, hon, hentry, hacts⟩ := h.run
  obtain ⟨hstance, hagrees⟩ := hentry.reachable hall hw hon hacts
  exact answers_of_route h.route (hstance.empty rfl) hmethod h.opened (fun _ => hagrees) h.honest

/-- What is left of the path below a mount. -/
theorem mountRoute_eq {r : Route} (hbeneath : Beneath r.stem t.path) :
    ∃ url len, url.take len.toNat = remainder r.stem t.path ∧ len.toNat ≤ url.length ∧
      t.mountRoute r = some (.tree r.dirFd false url len) := by
  rw [Turn.mountRoute]
  simp only [cut_eq]
  by_cases hle : t.path.length ≤ r.stem.length
  · exact ⟨[SLASH], 1, by simp [remainder, hle], le_rfl, by rw [if_pos hle]⟩
  · obtain ⟨hslash, hrest⟩ := drop_stem hbeneath rfl hle
    refine ⟨_, _, hrest, ?_, by rw [if_neg hle, if_neg (not_not.2 hslash)]⟩
    have hlen := congrArg List.length hrest
    have hle' := Nat.mod_le (t.path.length - r.stem.length) (2 ^ 16)
    rw [remainder, if_neg hle] at hlen
    simp only [List.length_take, List.length_drop, UInt16.toNat_ofNat'] at hlen ⊢
    omega

/-- A site with this mount does not serve its docroot only. -/
theorem staticRoute_mount {r : Route} (hroute : t.route site = some r) (htype : r.type = .static)
    (hexact : r.exact = false) (hprimary : r.primary = false) :
    t.staticRoute site = t.mountRoute r := by
  have hmem := (routeMatch_mem hroute).1
  have hnot : ¬ (site.routes.length = 1 ∧ site.routes.head?.any (·.primary)) := by
    rintro ⟨hone, hhead⟩
    obtain ⟨r', hr'⟩ := List.length_eq_one_iff.1 hone
    rw [hr', List.mem_singleton] at hmem
    rw [hr', ← hmem] at hhead
    simp [hprimary] at hhead
  simp only [Turn.staticRoute, if_neg hnot, hroute, htype, hexact, hprimary]
  rfl

theorem FromMount.answers (h : FromMount T d site fuel now t) (hempty : t.Empty)
    (hparsed : httpParseRequest t.hc.buf = .ok t.hc.req)
    (hmethod : t.hc.req.method = .get ∨ t.hc.req.method = .head) :
    ∃ url len, url.take len.toNat = remainder (SLASH :: d) t.path ∧ len.toNat ≤ url.length ∧
      t.Answers T site fuel now (T.answer site.allowDotfiles t.hc.req t.toHandler.query t.path
        (percentDecode url len STATIC_PATH_MAX)) := by
  obtain ⟨r, hroute, htype, hexact, hprimary, hstem, hdir⟩ := h.route
  have hbeneath : Beneath r.stem t.path := by
    have hmatch := (routeMatch_mem hroute).2
    rcases (routeMatches_iff (requestPath_head hparsed)).1 hmatch with ⟨hx, -⟩ | ⟨-, hb⟩
    · rw [hexact] at hx
      cases hx
    · exact hb
  obtain ⟨url, len, hrest, hmem, hmount⟩ := mountRoute_eq hbeneath
  have hstatic := (staticRoute_mount hroute htype hexact hprimary).trans hmount
  rw [hstem] at hrest
  exact ⟨url, len, hrest, hmem,
    answers_of_route hstatic hempty hmethod hdir nofun (h.honest _ hstatic)⟩

theorem Worker.Entry.handling {w : Worker} {idx : Nat} {t₀ : Turn} {p : Point}
    {ok : Point → Turn → Prop} (hentry : w.Entry idx now t₀) (hon : w.exited = false)
    (hacts : ActsIn site fuel now idx ok (.rest, t₀) (p, t)) :
    w.Handling site fuel anyState p t := by
  cases hentry with
  | load s sched disk hs hactive => exact .load now idx s sched disk hon hs hactive hacts.acts.inAny
  | enter fd free s sched disk hfree hs hwatched =>
      exact .enter fd now idx free s sched disk hon hfree hs hwatched hacts.acts.inAny

/-- What is known of a request at a worker. -/
theorem handling_headed {n : Nat} {as : List Action} {w : Worker} {loop : Bool}
    (hw : w ∈ runStates (Worker.step site fuel) (Worker.start n) as)
    (h : w.Handling site fuel anyState (.routing loop) t) :
    httpParseRequest t.hc.buf = .ok t.hc.req ∧ t.Empty ∧ t.path.length + 14 ≤ TINY_HEADER_SIZE := by
  obtain ⟨hstance, hheaded⟩ := (headedRule site fuel).reachable (.of_forall Worker.through_any as _) hw h
  exact ⟨hheaded.parsed loop rfl, hstance.empty rfl, hheaded.path_le (hstance.active nofun)⟩

theorem FromDocroot.headed (h : FromDocroot T site fuel now t) :
    httpParseRequest t.hc.buf = .ok t.hc.req ∧ t.path.length + 14 ≤ TINY_HEADER_SIZE := by
  obtain ⟨n, as, w, idx, t₀, loop, -, hw, hon, hentry, hacts⟩ := h.run
  obtain ⟨hparsed, -, hle⟩ := handling_headed hw (hentry.handling hon hacts)
  exact ⟨hparsed, hle⟩

end Answers

/-! ## The same answers -/

/-- The path names an index file that is a directory, and the path of the index file of that
one is too long for the buffer. -/
def Turn.IndexTooLong (T : Tree) (site : Site) (t : Turn) : Prop :=
  ∃ decoded, Decodes t.path decoded ∧ T.IndexTooLong site.allowDotfiles decoded

section Same

variable {T : Tree} {d : List UInt8} {rootSite mountSite : Site} {fuel fuel' now now' : Nat}
  {a b : Turn}

theorem decodes_head {url decoded : List UInt8} (h : Decodes (SLASH :: url) decoded) :
    decoded.head? = some SLASH := by
  cases h with
  | byte => rfl

/-- The tree answers for a path below the directory as its part does for the rest. -/
theorem answer_rest (hd : PlainName d) {req : HttpRequest} {query path rest : List UInt8}
    (allowDotfiles : Bool) {inp inp' : List UInt8} {len len' : UInt16} (hmem : len.toNat ≤ inp.length)
    (hmem' : len'.toNat ≤ inp'.length) (hinp : inp.take len.toNat = path)
    (hpath : path = SLASH :: (d ++ SLASH :: rest)) (hinp' : inp'.take len'.toNat = SLASH :: rest)
    (hle : path.length + 14 ≤ TINY_HEADER_SIZE)
    (hshort : ¬ ∃ decoded, Decodes path decoded ∧ T.IndexTooLong allowDotfiles decoded) :
    T.answer allowDotfiles req query path (percentDecode inp len STATIC_PATH_MAX)
      = (T.below d).answer allowDotfiles req query path (percentDecode inp' len' STATIC_PATH_MAX) := by
  have hcap : 3 * STATIC_PATH_MAX + 3 < 65536 := by decide
  have hmax : STATIC_PATH_MAX = TINY_HEADER_SIZE := rfl
  have hlen := congrArg List.length hinp
  have hlen' := congrArg List.length hpath
  simp only [List.length_take, List.length_cons, List.length_append] at hlen hlen'
  have hdecode : percentDecode inp len STATIC_PATH_MAX
      = (percentDecode inp' len' STATIC_PATH_MAX).map fun s => SLASH :: (d ++ s) := by
    refine hd.percentDecode hcap hmem hmem' ?_ ?_ (by omega)
    · rw [hinp, hpath, hinp']
    · rw [hinp']
      exact List.cons_ne_nil _ _
  rw [hdecode]
  cases hin : percentDecode inp' len' STATIC_PATH_MAX with
  | none => rfl
  | some decoded =>
      obtain ⟨hdecodes, -, -⟩ := (percentDecode_iff hcap hmem').1 hin
      rw [hinp'] at hdecodes
      have hdecoded := hdecodes.length_le
      rw [List.length_cons] at hdecoded
      refine Tree.answer_below hd (decodes_head hdecodes) hdecodes.no_control (by omega) ?_
      refine fun hlong => hshort ⟨_, ?_, hlong⟩
      rw [hpath]
      exact hd.decodes.2 ⟨decoded, rfl, hdecodes⟩

/-- A site that serves a tree and a site that serves its directory `d` as `/d` answer a
request for a path below `/d` alike, but where the path of an index file is too long for the
first. The request for `/d` itself the first one redirects, and the second one answers with
what it has for `/d/`. -/
theorem mounted_answers (hd : PlainName d) {n : Node} (hn : T [d] = .node n)
    (hkind : n.stat.kind = .directory) (hdot : rootSite.allowDotfiles = mountSite.allowDotfiles)
    (ha : FromDocroot T rootSite fuel now a) (hb : FromMount (T.below d) d mountSite fuel' now' b)
    (hsame : SameRequest a b) (hmethod : a.hc.req.method = .get ∨ a.hc.req.method = .head) :
    (∀ rest, a.path = SLASH :: (d ++ SLASH :: rest) →
      (¬ a.IndexTooLong T rootSite → ∃ r, a.Answers T rootSite fuel now r ∧
        b.Answers (T.below d) mountSite fuel' now' r) ∧
      (a.IndexTooLong T rootSite → a.Answers T rootSite fuel now (.notFound a.hc.req))) ∧
    (a.path = SLASH :: d →
      a.Answers T rootSite fuel now (.redirect a.hc.req a.toHandler.query (SLASH :: d)) ∧
      b.Answers (T.below d) mountSite fuel' now' ((T.below d).answer rootSite.allowDotfiles a.hc.req
        a.toHandler.query (SLASH :: d) (some [SLASH]))) := by
  obtain ⟨hparsed, hle⟩ := ha.headed
  obtain ⟨m, bs, w, loop, hw, hhandling⟩ := hb.run
  obtain ⟨hparsed', hempty, -⟩ := handling_headed hw hhandling
  obtain ⟨hpath, hquery⟩ := hsame.texts hparsed
  have hroot := ha.answers hmethod
  obtain ⟨url, len, hrest, hmem, hmount⟩ := hb.answers hempty hparsed' (hsame.req ▸ hmethod)
  rw [← hdot, ← hsame.req, ← hquery, ← hpath] at hmount
  rw [← hpath] at hrest
  have hmem' := requestPath_le hparsed
  -- No path of a head is too long for the buffer.
  have hdecode : ∀ {inp : List UInt8} {k : UInt16} (url decoded : List UInt8),
      k.toNat ≤ inp.length → inp.take k.toNat = url → Decodes url decoded → url ≠ [] →
        url.length ≤ a.path.length → percentDecode inp k STATIC_PATH_MAX = some decoded := by
    intro inp k url decoded hk htake hdecodes hne hshort
    refine (percentDecode_iff (by decide) hk).2 ⟨htake ▸ hdecodes, ?_, ?_⟩
    · rintro rfl
      cases hdecodes
      exact hne rfl
    · have hmax : STATIC_PATH_MAX = TINY_HEADER_SIZE := rfl
      have hdecoded := hdecodes.length_le
      omega
  refine ⟨fun rest hbelow => ⟨fun hshort => ⟨_, hroot, ?_⟩, ?_⟩, fun hname => ⟨?_, ?_⟩⟩
  -- Below the mount both look up the same name, one with the mount's name before it.
  · have htake : url.take len.toNat = SLASH :: rest := by
      rw [hrest, hbelow, remainder, if_neg (by simp)]
      simp
    have hsame := @answer_rest T d hd a.hc.req a.toHandler.query _ _ rootSite.allowDotfiles _ _ _ _
      hmem' hmem rfl hbelow htake hle hshort
    exact hsame ▸ hmount
  -- The name with `index.html` added is too long for the buffer, but only from the root.
  · rintro ⟨decoded, hdecodes, hlong⟩
    rw [hdecode a.path decoded hmem' rfl hdecodes (by rw [hbelow]; exact List.cons_ne_nil _ _) le_rfl,
      hlong.answer] at hroot
    exact hroot
  -- The bare name of the mount: the root redirects it to the name with a slash.
  · have hdecodes : Decodes a.path (SLASH :: d) := by
      have hself := hd.decodes.2 ⟨[], rfl, .nil⟩
      rw [List.append_nil] at hself
      rwa [hname]
    have hshort : d.length + 2 < STATIC_PATH_MAX := by
      rw [hname, List.length_cons] at hle
      exact lt_of_lt_of_le (by omega) hle
    rw [hdecode a.path (SLASH :: d) hmem' rfl hdecodes (by rw [hname]; exact List.cons_ne_nil _ _) le_rfl,
      Tree.answer_name hd hshort hn hkind, hname] at hroot
    exact hroot
  -- The mount serves it as its own root.
  · have htake : url.take len.toNat = [SLASH] := by
      rw [hrest, hname, remainder, if_pos le_rfl]
    have hdecodes : Decodes [SLASH] [SLASH] := .byte SLASH (by decide) (by decide) .nil
    have hone : [SLASH].length ≤ a.path.length := by
      rw [hname]
      simp
    rw [hdecode [SLASH] [SLASH] hmem htake hdecodes (List.cons_ne_nil _ _) hone, hname] at hmount
    exact hmount

end Same

/-! ## One directory -/

/-- The directory `d` with an index file. -/
def indexTree : Static.Tree := fun names =>
  if names = [cstr "d"] then .node ⟨⟨.directory, 4096, 0, 0, 1⟩, []⟩
  else if names = [cstr "d", cstr "index.html"] then .node ⟨⟨.regular, 5, 0, 0, 2⟩, cstr "hello"⟩
  else .notFound

/-- The directory as the mount `/d`. -/
def mountSite : Site := ⟨[⟨.static, false, false, some 4, cstr "/d", [], [], 0⟩], none, false⟩

/-- A request for `path`. -/
def nameHead (path : List UInt8) : List UInt8 :=
  cstr "GET " ++ path ++ cstr " HTTP/1.1\r\nHost: h\r\n\r\n"

/-- Its record. -/
def nameRequest (n : Nat) : HttpRequest :=
  { HttpRequest.zero with
    target := ⟨4, n⟩
    path := ⟨4, n⟩
    host := ⟨21 + n, 1⟩
    headerBlock := ⟨15 + n, 9⟩
    headerBytes := 26 + n
    method := .get
    minorVersion := 1 }

/-- The client sends it. -/
def nameSched (path : List UInt8) : Schedule :=
  { Schedule.quiet with clientReads := [.data (nameHead path)] }

/-- A worker without connections takes one, with the files that it finds. -/
def nameStart (path : List UInt8) (disk : Disk) : Turn :=
  (Worker.start 1).admitted .unused 10 0 [] (nameSched path) disk

/-- The handler before it routes the request. -/
def nameTurn (path : List UInt8) (disk : Disk) : Turn :=
  ((nameStart path disk).afterRead.2.received (nameHead path) 0).parsed (nameRequest path.length)

/-- The directory is found. -/
def rootDisk : Disk :=
  { Disk.quiet with opens := [.opened 50], fstats := [some ⟨.directory, 4096, 0, 0, 1⟩] }

/-- The index file is found. -/
def indexDisk : Disk :=
  { Disk.quiet with opens := [.opened 60], fstats := [some ⟨.regular, 5, 0, 0, 2⟩] }

theorem name_docroot {path : List UInt8} {disk : Disk}
    (hparse : httpParseRequest (nameHead path) = .ok (nameRequest path.length))
    (hread : (nameStart path disk).afterRead.1 = .got (nameHead path))
    (hhonest : AllHonest indexTree ((nameTurn path disk).docrootCalls fileSite 0)) :
    FromDocroot indexTree fileSite 20 0 (nameTurn path disk) where
  run := by
    refine ⟨1, [], Worker.start 1, 0, nameStart path disk, true, trivial, List.mem_singleton_self _,
      rfl, .enter 10 [] .unused _ _ rfl rfl rfl, ?_⟩
    exact first_acts (fun p _ hp loop he => absurd he (hp loop)) hparse hread (by simp [nameHead, cstr])
  opened := nofun
  route := rfl
  honest := hhonest

theorem name_mount {path : List UInt8} {disk : Disk} {q : StaticRoute}
    (hparse : httpParseRequest (nameHead path) = .ok (nameRequest path.length))
    (hread : (nameStart path disk).afterRead.1 = .got (nameHead path))
    (hroute : (nameTurn path disk).route mountSite = mountSite.routes.head?)
    (hstatic : (nameTurn path disk).staticRoute mountSite = some q)
    (hhonest : AllHonest (indexTree.below (cstr "d")) ((nameTurn path disk).staticCalls mountSite 0 q)) :
    FromMount (indexTree.below (cstr "d")) (cstr "d") mountSite 20 0 (nameTurn path disk) where
  run := by
    refine ⟨1, [], Worker.start 1, true, List.mem_singleton_self _, ?_⟩
    refine .enter 10 0 0 [] .unused (nameSched path) disk rfl rfl rfl rfl
      (first_acts (fun _ _ _ => trivial) hparse hread ?_)
    simp [nameHead, cstr]
  route := ⟨_, hroute, rfl, rfl, rfl, rfl, nofun⟩
  honest := fun q' hq' => by
    rw [hstatic] at hq'
    exact Option.some.inj hq' ▸ hhonest

theorem plainName_d : PlainName (cstr "d") := by
  refine ⟨by decide, by decide, fun c hc => ?_⟩
  rw [show cstr "d" = [0x64] by decide, List.mem_singleton] at hc
  rw [hc]
  decide

/-- The index file for `/d/`. -/
theorem mounted_answers_index :
    ∃ r, (nameTurn (cstr "/d/") indexDisk).Answers indexTree fileSite 20 0 r ∧
      (nameTurn (cstr "/d/") indexDisk).Answers (indexTree.below (cstr "d")) mountSite 20 0 r := by
  have hroot : FromDocroot indexTree fileSite 20 0 (nameTurn (cstr "/d/") indexDisk) :=
    name_docroot (by decide +kernel) (by decide +kernel) (by decide +kernel)
  have hmount : FromMount (indexTree.below (cstr "d")) (cstr "d") mountSite 20 0
      (nameTurn (cstr "/d/") indexDisk) :=
    name_mount (by decide +kernel) (by decide +kernel) (by decide +kernel) rfl (by decide +kernel)
  have hdot : fileSite.allowDotfiles = mountSite.allowDotfiles := rfl
  refine ((mounted_answers plainName_d rfl rfl hdot hroot hmount ⟨rfl, rfl⟩ (.inl rfl)).1 [] rfl).1 ?_
  -- What the path names is no directory.
  rintro ⟨decoded, hdecodes, rel, n, hrel, -, hn, hkind, -⟩
  have hself : Decodes (cstr "/d/") (cstr "/d/") :=
    .byte _ (by decide) (by decide) (.byte _ (by decide) (by decide)
      (.byte _ (by decide) (by decide) .nil))
  obtain rfl : decoded = cstr "/d/" := hdecodes.unique hself
  obtain rfl : cstr "d/index.html" = rel := by
    refine Option.some.inj (Eq.trans ?_ hrel)
    decide +kernel
  have hfile : (Found.node ⟨⟨.regular, 5, 0, 0, 2⟩, cstr "hello"⟩) = .node n := hn
  rw [← Found.node.inj hfile] at hkind
  cases hkind

/-- A request has one answer. -/
theorem Turn.Answers.unique {T : Static.Tree} {site : Site} {fuel now : Nat} {t : Turn}
    {r r' : Static.Answer} (h : t.Answers T site fuel now r) (h' : t.Answers T site fuel now r') :
    r = r' := by
  obtain ⟨q, k, hq, hk, rfl⟩ := h
  obtain ⟨q', k', hq', hk', rfl⟩ := h'
  rw [hq] at hq'
  rw [hk] at hk'
  cases hq'
  cases hk'
  rfl

/-- For `/d` the docroot answers with a redirect, the mount with the index file. -/
theorem mountedName_differs :
    FromDocroot indexTree fileSite 20 0 (nameTurn (cstr "/d") rootDisk) ∧
      FromMount (indexTree.below (cstr "d")) (cstr "d") mountSite 20 0
        (nameTurn (cstr "/d") indexDisk) ∧
      SameRequest (nameTurn (cstr "/d") rootDisk) (nameTurn (cstr "/d") indexDisk) ∧
      ¬ ∃ r, (nameTurn (cstr "/d") rootDisk).Answers indexTree fileSite 20 0 r ∧
        (nameTurn (cstr "/d") indexDisk).Answers (indexTree.below (cstr "d")) mountSite 20 0 r := by
  have hmount : FromMount (indexTree.below (cstr "d")) (cstr "d") mountSite 20 0
      (nameTurn (cstr "/d") indexDisk) :=
    name_mount (by decide +kernel) (by decide +kernel) (by decide +kernel) rfl (by decide +kernel)
  refine ⟨name_docroot (by decide +kernel) (by decide +kernel) (by decide +kernel), hmount,
    ⟨rfl, rfl⟩, ?_⟩
  rintro ⟨r, hr, hr'⟩
  have hroot := hr.unique ⟨_, _, rfl, Turn.routeBegin_static 20 0 rfl, rfl⟩
  have hindex := hr'.unique ⟨_, _, rfl, Turn.routeBegin_static 20 0 rfl, rfl⟩
  have hstatus := congrArg Static.Answer.status (hroot.symm.trans hindex)
  revert hstatus
  decide +kernel

end TinyServer.Serve
