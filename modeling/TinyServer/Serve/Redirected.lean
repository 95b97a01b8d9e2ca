import TinyServer.Serve.Mounted
import TinyServer.Static.Redirect

/-!
# Redirected requests

A request that a worker answers with a 301 names a directory below the stem of its route,
and the location is made of its path and its query (`redirected_answer`). So
`redirected_leadsBack_iff` says of every request that is redirected what `leadsBack_iff`
says of the texts.
-/

set_option autoImplicit false

namespace TinyServer.Serve

open TinyServer.Http TinyServer.Net TinyServer.Proxy TinyServer.Static TinyServer.Routing
open TinyServer.Lib

/-! ## The texts -/

section Texts

variable {t : Turn}

/-- A path or a query of a request is made of the characters of a target, and the path ends
before the first question mark. -/
theorem request_texts (h : httpParseRequest t.hc.buf = .ok t.hc.req) :
    (∀ c ∈ t.path, isTargetChar c = true) ∧ QMARK ∉ t.path ∧
      ∀ c ∈ t.toHandler.query, isTargetChar c = true := by
  obtain ⟨hd, hacc⟩ := exists_head_of_accept h
  obtain ⟨tail, htail⟩ := hacc.starts
  obtain ⟨hpath, hquery⟩ := hacc.result.texts hacc.short tail
  have hchars := List.all_eq_true.1 hd.target.path_chars
  have htext : t.path = askedPath hd.target.pathText := by
    rw [Turn.path, requestPath_asked h, ← htail, hpath]
  have hasked : ∀ c ∈ askedPath hd.target.pathText, c = SLASH ∨ c ∈ hd.target.pathText := by
    intro c hc
    rw [askedPath] at hc
    split at hc
    · exact .inl (List.mem_singleton.1 hc)
    · exact .inr hc
  have hquery' : t.toHandler.query = hd.target.queryText := by
    rw [← hquery, htail]
    rfl
  refine ⟨fun c hc => ?_, fun hmark => ?_, fun c hc => ?_⟩
  · rw [htext] at hc
    rcases hasked c hc with rfl | hc
    · decide
    · exact hchars c ((List.takeWhile_prefix _).subset hc)
  · rw [htext] at hmark
    rcases hasked QMARK hmark with hslash | hmark
    · cases hslash
    · exact not_mem_takeWhile_ne hd.target.path hmark
  · rw [hquery'] at hc
    exact hchars c ((List.dropWhile_suffix _).subset (List.mem_of_mem_drop hc))

end Texts

/-! ## The route -/

/-- What the route of the request takes from its path. -/
def Turn.stem (site : Site) (t : Turn) : List UInt8 :=
  if site.routes.length = 1 ∧ site.routes.head?.any (·.primary) then []
  else
    match t.route site with
    | none => []
    | some r => if r.primary then [] else r.stem

/-- The request is routed by a worker of the site, to files, and is answered with a 301. -/
structure Redirected (site : Site) (fuel now : Nat) (t t' : Turn) : Prop where
  run : ∃ n as w loop, w ∈ runStates (Worker.step site fuel) (Worker.start n) as ∧
    w.Handling site fuel anyState (.routing loop) t
  route : ∃ q, t.staticRoute site = some q
  begins : t.routeBegin site fuel now = some (.wantWrite, t')
  status : t'.hc.statusCode = 301

section Route

variable {site : Site} {fuel now : Nat} {t t' : Turn}

/-- What `static_serve` decodes is the path below the stem, or the root of the mount. -/
theorem staticRoute_tree (h : httpParseRequest t.hc.buf = .ok t.hc.req) {dirFd : Option Nat}
    {useCache : Bool} {url : List UInt8} {urlLen : UInt16}
    (hroute : t.staticRoute site = some (.tree dirFd useCache url urlLen)) :
    urlLen.toNat ≤ url.length ∧
      (t.path = t.stem site ++ url.take urlLen.toNat ∨ url.take urlLen.toNat = [SLASH]) := by
  have hdocroot : t.stem site = [] → some (StaticRoute.tree site.docroot true (requestPath t.hc).1
      (requestPath t.hc).2) = some (.tree dirFd useCache url urlLen) → urlLen.toNat ≤ url.length ∧
        (t.path = t.stem site ++ url.take urlLen.toNat ∨ url.take urlLen.toNat = [SLASH]) := by
    intro hstem hq
    cases hq
    rw [hstem]
    exact ⟨requestPath_le h, .inl rfl⟩
  unfold Turn.staticRoute at hroute
  split at hroute
  · rename_i hone
    exact hdocroot (by rw [Turn.stem, if_pos hone]) hroute
  · rename_i hone
    cases hr : t.route site with
    | none =>
        rw [hr] at hroute
        cases hroute
    | some r =>
        simp only [hr] at hroute
        split at hroute
        · cases hroute
        split at hroute
        · cases hroute
        rename_i hexact
        split at hroute
        · rename_i hprimary
          exact hdocroot (by rw [Turn.stem, if_neg hone, hr]; exact if_pos hprimary) hroute
        · rename_i hprimary
          have hstem : t.stem site = r.stem := by
            rw [Turn.stem, if_neg hone, hr]
            exact if_neg hprimary
          have hbeneath : Beneath r.stem t.path := by
            rcases (routeMatches_iff (requestPath_head h)).1 (routeMatch_mem hr).2 with ⟨hx, -⟩ | ⟨-, hb⟩
            · exact absurd hx hexact
            · exact hb
          obtain ⟨url', len, hrest, hmem, hmount⟩ := mountRoute_eq hbeneath
          rw [hmount] at hroute
          cases hroute
          refine ⟨hmem, ?_⟩
          rw [hrest, hstem, remainder]
          split
          · exact .inr rfl
          · rename_i hle
            rcases hbeneath with heq | ⟨s, hs⟩
            · exact absurd (heq ▸ le_rfl) hle
            · left
              rw [← hs]
              simp

/-- What is known of a request that is redirected, and its answer. -/
theorem redirected_answer (h : Redirected site fuel now t t') :
    ∃ url decoded rel, t.path = t.stem site ++ url ∧
      NamesDirectory site.allowDotfiles url decoded rel ∧
      (∃ q, t.staticRoute site = some q ∧ t.AsksDirectory site now q) ∧
      HasLocation t'.hc.fixed (redirectTarget t.path t.toHandler.query) ∧
      t.path.head? = some SLASH ∧ QMARK ∉ t.path ∧ decoded.length + 12 < STATIC_PATH_MAX := by
  obtain ⟨n, as, w, loop, hw, hhandling⟩ := h.run
  obtain ⟨hparsed, hempty, hle⟩ := handling_headed hw hhandling
  obtain ⟨hpath, hmark, hquery⟩ := request_texts hparsed
  obtain ⟨q, hq⟩ := h.route
  have hbegin := h.begins.symm.trans (Turn.routeBegin_static fuel now hq)
  obtain rfl : t' = t.routed.withHandler (t.staticAnswer site now q) :=
    congrArg Prod.snd (Option.some.inj hbegin)
  have h301 : (t.staticAnswer site now q).hc.statusCode = 301 := h.status
  cases q with
  | file path => exact absurd h301 (Handler.staticBeginFile_status path)
  | tree dirFd useCache url urlLen =>
      obtain ⟨hasks, hfixed⟩ := Handler.staticServe_redirects hempty.2 h301
      obtain ⟨-, -, decoded, rel, fd, st, k, hdecode, hnorm, -, -, hlast⟩ := id hasks
      obtain ⟨hmem, hbelow⟩ := staticRoute_tree hparsed hq
      obtain ⟨hdecodes, -, -⟩ := (percentDecode_iff (by decide) hmem).1 hdecode
      have hstem : t.path = t.stem site ++ url.take urlLen.toNat := by
        refine hbelow.resolve_right fun hroot => hlast ?_
        rw [hroot] at hdecodes
        have hself : Decodes [SLASH] [SLASH] := .byte SLASH (by decide) (by decide) .nil
        rw [hdecodes.unique hself]
        rfl
      refine ⟨_, decoded, rel, hstem, ⟨hdecodes, hnorm, hlast⟩,
        ⟨_, hq, dirFd, useCache, url, urlLen, rfl, hasks⟩, ?_, requestPath_head hparsed, hmark, ?_⟩
      · have hgood : ∀ s : List UInt8, (∀ c ∈ s, isTargetChar c = true) → ∀ c ∈ s, c ≠ 0 ∧ c ≠ CR := by
          intro s hs c hc
          have hchar := hs c hc
          constructor
          · rintro rfl
            cases hchar
          · rintro rfl
            cases hchar
        have hlocation := redirectHeader_location (httpShouldKeepalive t.hc.req) (hgood _ hpath)
          (hgood _ hquery)
        exact hfixed ▸ hlocation
      · have hlen := congrArg List.length hstem
        rw [List.length_append] at hlen
        have hdecoded := hdecodes.length_le
        have hmax : STATIC_PATH_MAX = TINY_HEADER_SIZE := rfl
        omega

end Route

/-- The location of a redirect leads a client back to the same server, to the index file of
the directory and with the same query, exactly where the path and the query are read as they
are meant (`Returns`); and where it leads there, the request for it is not redirected. -/
theorem redirected_leadsBack_iff {site : Site} {fuel now : Nat} {t t' : Turn}
    (h : Redirected site fuel now t t') :
    ∃ url decoded rel location, t.path = t.stem site ++ url ∧
      NamesDirectory site.allowDotfiles url decoded rel ∧
      (∃ q, t.staticRoute site = some q ∧ t.AsksDirectory site now q) ∧
      HasLocation t'.hc.fixed location ∧
      ∀ (base : Reference UInt8) (a : List UInt8), base.authority = some a → a ≠ [] →
        (LeadsBack site.allowDotfiles base (t.stem site) rel t.toHandler.query location ↔
          Returns (t.stem site) t.path t.toHandler.query) ∧
        (LeadsBack site.allowDotfiles base (t.stem site) rel t.toHandler.query location →
          ∀ now₂ t₂ t₂', t₂.path = (uri.resolve base (uri.parse location)).path →
            ¬ Redirected site fuel now₂ t₂ t₂') := by
  obtain ⟨url, decoded, rel, hpath, hnames, hasks, hlocation, hslash, hmark, hshort⟩ :=
    redirected_answer h
  refine ⟨url, decoded, rel, _, hpath, hnames, hasks, hlocation, fun base a ha hne =>
    ⟨leadsBack_iff hnames hpath hslash hmark hshort ha hne, ?_⟩⟩
  intro hback now₂ t₂ t₂' hpath₂ h₂
  obtain ⟨url', decoded', hresolved, hdecodes, hlast, -⟩ := hback.path
  obtain ⟨url₂, decoded₂, rel₂, hsplit, hnames₂, -⟩ := redirected_answer h₂
  -- The path that it leads to ends with a slash, a path that is redirected does not.
  have hends : t₂.path.getLast? = some SLASH := by
    have hurl := hdecodes.getLast_slash.1 hlast
    rw [hpath₂, hresolved, List.getLast?_append, hurl]
    rfl
  exact hnames₂.below_last (t₂.stem site) (hsplit ▸ hends)

/-! ## The directory of a docroot -/

/-- The URL of a request for `path`. -/
def nameUrl (path : List UInt8) : Reference UInt8 :=
  ⟨some (cstr "http"), some (cstr "h"), path, none, none⟩

/-- After the answer to a request for `path`, which is found to be a directory. -/
def nameAnswered (path : List UInt8) : Turn :=
  (nameTurn path rootDisk).routed.withHandler ((nameTurn path rootDisk).staticAnswer fileSite 0
    (.tree fileSite.docroot true (requestPath (nameTurn path rootDisk).hc).1
      (requestPath (nameTurn path rootDisk).hc).2))

theorem name_redirected {path : List UInt8}
    (hparse : httpParseRequest (nameHead path) = .ok (nameRequest path.length))
    (hread : (nameStart path rootDisk).afterRead.1 = .got (nameHead path))
    (h301 : (nameAnswered path).hc.statusCode = 301) :
    Redirected fileSite 20 0 (nameTurn path rootDisk) (nameAnswered path) where
  run := by
    refine ⟨1, [], Worker.start 1, true, List.mem_singleton_self _, ?_⟩
    refine .enter 10 0 0 [] .unused (nameSched path) rootDisk rfl rfl rfl rfl
      (first_acts (fun _ _ _ => trivial) hparse hread ?_)
    simp [nameHead, cstr]
  route := ⟨_, rfl⟩
  begins := Turn.routeBegin_static 20 0 rfl
  status := h301

/-- The location for `/d` leads to the index file of `d`. -/
theorem redirected_leadsBack_iff_name : ∃ rel location,
    HasLocation (nameAnswered (cstr "/d")).hc.fixed location ∧
      LeadsBack false (nameUrl (cstr "/d")) [] rel [] location := by
  have hredirected : Redirected fileSite 20 0 (nameTurn (cstr "/d") rootDisk)
      (nameAnswered (cstr "/d")) :=
    name_redirected (by decide +kernel) (by decide +kernel) (by decide +kernel)
  obtain ⟨url, decoded, rel, location, -, -, -, hlocation, hleads⟩ :=
    redirected_leadsBack_iff hredirected
  refine ⟨rel, location, hlocation, ?_⟩
  refine ((hleads (nameUrl (cstr "/d")) (cstr "h") rfl (by decide)).1).2 ?_
  exact ⟨by decide +kernel, by decide +kernel, by decide +kernel, by decide +kernel⟩

/-- The location for `//d` is on another server. -/
theorem doubleSlash_leaves :
    Redirected fileSite 20 0 (nameTurn (cstr "//d") rootDisk) (nameAnswered (cstr "//d")) ∧
      HasLocation (nameAnswered (cstr "//d")).hc.fixed (cstr "//d/") ∧
      (nameUrl (cstr "//d")).authority = some (cstr "h") ∧
      (uri.resolve (nameUrl (cstr "//d")) (uri.parse (cstr "//d/"))).authority = some (cstr "d") := by
  refine ⟨name_redirected (by decide +kernel) (by decide +kernel) (by decide +kernel),
    ⟨by decide, cstr "Content-Length: 0\r\nConnection: keep-alive\r\n\r\n", by decide +kernel⟩, rfl,
    by decide +kernel⟩

end TinyServer.Serve
