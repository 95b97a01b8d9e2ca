import TinyServer.Lib.Reference
import TinyServer.Static.Below
import TinyServer.Static.Memory

/-!
# The redirect to a directory

`arm_dir_redirect` puts the raw path and query of the request into the `Location` of a 301.
A client resolves that text against the URL of its request. `leadsBack_iff` says for which
paths and queries it then asks the same server for the index file of the same directory,
with the same query: the path begins with one slash only, neither text holds a number
sign, and the mount that the path is served below has no dot segment.
-/

set_option autoImplicit false

namespace TinyServer.Static

open TinyServer.Http TinyServer.Lib TinyServer.Lib.Delimiters

/-! ## Which answers are redirects -/

namespace Handler

variable {h : Handler} {now : Nat}

theorem armKeepable_status (closeResp keepResp : List UInt8) (status : Nat) :
    (h.armKeepable closeResp keepResp status now).hc.statusCode = status :=
  dropFile_status _

theorem armOpenError_status (r : OpenResult) : (h.armOpenError r now).hc.statusCode ≠ 301 := by
  cases r with
  | notFound => exact (armKeepable_status _ _ 404).trans_ne (by decide)
  | forbidden => exact (armKeepable_status _ _ 403).trans_ne (by decide)
  | opened | again | failed => exact (armClose_status h _ 500 now).trans_ne (by decide)

theorem armRegular_status (fd : Nat) (size : Int64) (mime : List UInt8) (owned : Bool) :
    (h.armRegular fd size mime owned now).hc.statusCode ≠ 301 := by
  simp only [armRegular, bumpAlloc_eq]
  by_cases hroom : h.room < STATIC_HDR_SIZE
  · simp only [if_pos hroom, armClose_status]
    decide
  · simp only [if_neg hroom]
    by_cases hlong : STATIC_HDR_SIZE
        ≤ (okHeader size.toInt mime (httpShouldKeepalive h.hc.req)).length
    · simp only [if_pos hlong, armClose_status]
      decide
    · simp only [if_neg hlong]
      intro h200
      cases h200

theorem Lookup.status {rel : List UInt8} {calls : List StaticCall} {k : Handler}
    (hlookup : Lookup h rel now calls (true, k)) : k.hc.statusCode ≠ 301 := by
  cases hlookup with
  | hit => exact armRegular_status _ _ _ _

theorem Fetched.status {useCache : Bool} {rel : List UInt8} {calls : List StaticCall} {k : Handler}
    (hfetched : Fetched h useCache rel now calls (.error k)) : k.hc.statusCode ≠ 301 := by
  cases hfetched with
  | hit _ hlookup => exact hlookup.status
  | refused => exact armOpenError_status _
  | blind =>
      rw [armClose_status]
      decide

theorem serveOpened_status (useCache : Bool) (rel : List UInt8) (fd : Nat) (st : Stat) :
    (h.serveOpened useCache rel fd st now).hc.statusCode ≠ 301 := by
  unfold serveOpened
  split
  · rw [armKeepable_status]
    decide
  · extract_lets mime s
    split
    · split
      · exact armRegular_status _ _ _ _
      · exact armRegular_status _ _ _ _
    · exact armRegular_status _ _ _ _

/-- A directory is redirected to only where the path does not end with a slash. -/
theorem serveIndex_status {useCache : Bool} {decoded rel redir : List UInt8}
    (h301 : (h.serveIndex useCache decoded rel redir now).hc.statusCode = 301) :
    decoded.getLast? ≠ some SLASH ∧ (h.serveIndex useCache decoded rel redir now).hc.fixed
      = redirectHeader redir h.query (httpShouldKeepalive h.hc.req) := by
  rw [serveIndex_eq] at h301 ⊢
  by_cases hlast : decoded.getLast? = some SLASH
  · rw [if_neg (not_not.2 hlast)] at h301
    split at h301
    · rw [armKeepable_status] at h301
      cases h301
    · have hfetched := h.fetch_fetched useCache (rel ++ cstr "/index.html") now
      split at h301
      · rename_i k hk
        rw [hk] at hfetched
        exact absurd h301 hfetched.status
      · exact absurd h301 (serveOpened_status _ _ _ _)
  · rw [if_pos hlast, armDirRedirect_eq] at h301 ⊢
    by_cases hroom : h.room < h.redirectNeed redir
    · rw [if_pos hroom, armClose_status] at h301
      cases h301
    · refine ⟨hlast, ?_⟩
      rw [if_neg hroom]
      obtain ⟨owned, hdrop⟩ := dropFile_hc { h with
        arena := h.arena + h.redirectNeed redir
        hc := h.armedRedirect redir now }
      rw [hdrop]
      rfl

/-- A 301 of `static_serve` is the redirect to the directory that the path names. -/
theorem staticServe_redirects {allowDotfiles : Bool} {dirFd : Option Nat} {useCache : Bool}
    {url : List UInt8} {urlLen : UInt16} {redir : List UInt8} (harena : h.arena = 0)
    (h301 : (staticServe allowDotfiles h dirFd useCache url urlLen redir now).hc.statusCode = 301) :
    AsksDirectory allowDotfiles h dirFd useCache url urlLen now ∧
      (staticServe allowDotfiles h dirFd useCache url urlLen redir now).hc.fixed
        = redirectHeader redir h.query (httpShouldKeepalive h.hc.req) := by
  by_cases hmethod : h.hc.req.method = .get ∨ h.hc.req.method = .head
  swap
  · rw [staticServe, if_pos (not_or.1 hmethod), armKeepable_status] at h301
    cases h301
  by_cases hdir : dirFd = none
  · have hno : ¬ (h.hc.req.method ≠ .get ∧ h.hc.req.method ≠ .head) := by
      rintro ⟨h₁, h₂⟩
      exact hmethod.elim h₁ h₂
    rw [staticServe, if_neg hno, if_pos hdir, armClose_status] at h301
    cases h301
  rw [staticServe_eq allowDotfiles dirFd useCache url urlLen redir now harena hmethod hdir] at h301 ⊢
  dsimp only at h301 ⊢
  cases hdecode : percentDecode url urlLen STATIC_PATH_MAX with
  | none =>
      rw [hdecode, armClose_status] at h301
      cases h301
  | some decoded =>
      simp only [hdecode] at h301 ⊢
      cases hnorm : normalizePath allowDotfiles decoded STATIC_PATH_MAX with
      | none =>
          rw [hnorm, armKeepable_status] at h301
          cases h301
      | some rel =>
          simp only [hnorm, servePath_eq] at h301 ⊢
          have hfetched := fetch_fetched { h with arena := 2 * STATIC_PATH_MAX } useCache rel now
          cases hfetch : fetch { h with arena := 2 * STATIC_PATH_MAX } useCache rel now with
          | error k =>
              rw [hfetch] at hfetched h301
              exact absurd h301 hfetched.status
          | ok r =>
              obtain ⟨fd, st, k⟩ := r
              obtain ⟨haside, -⟩ := hfetched.arena.2 fd st k hfetch
              simp only [hfetch] at h301 ⊢
              by_cases hkind : st.kind = .directory
              · rw [if_pos hkind] at h301 ⊢
                obtain ⟨hlast, hfixed⟩ := serveIndex_status h301
                refine ⟨⟨hmethod, hdir, decoded, rel, fd, st, k, hdecode, hnorm, hfetch, hkind,
                  hlast⟩, hfixed.trans ?_⟩
                -- Neither the lookup nor `close` changes the request.
                show redirectHeader redir k.query (httpShouldKeepalive k.hc.req) = _
                rw [query, haside.hc]
                rfl
              · rw [if_neg hkind] at h301
                exact absurd h301 (serveOpened_status _ _ _ _)

theorem staticBeginFile_status (path : List UInt8) :
    (h.staticBeginFile path now).hc.statusCode ≠ 301 := by
  unfold staticBeginFile
  split
  · rw [armKeepable_status]
    decide
  split
  · rw [armClose_status]
    decide
  have hopened : ∀ (o : OpenResult × Handler) (k : Handler), statOpened o now = .error k →
      k.hc.statusCode ≠ 301 := by
    rintro ⟨r, o⟩ k hk
    cases r with
    | opened fd =>
        simp only [statOpened] at hk
        split at hk
        · rw [← Except.error.inj hk, armClose_status]
          decide
        · injection hk
    | again | notFound | forbidden | failed =>
        rw [← Except.error.inj hk]
        exact armOpenError_status _
  split
  · rename_i k hk
    exact hopened _ k hk
  · split
    · rw [armKeepable_status]
      decide
    · exact armRegular_status _ _ _ _

end Handler

/-! ## The location -/

/-- `'#'`, which starts a fragment. -/
abbrev HASH : UInt8 := 0x23

/-- The delimiters of a URL. -/
abbrev uri : Delimiters UInt8 := ⟨COLON, SLASH, QMARK, HASH, DOT, by decide⟩

/-- The value of `Location` for a path and a query. -/
def redirectTarget (path query : List UInt8) : List UInt8 :=
  path ++ SLASH :: if query = [] then [] else QMARK :: query

/-- The head is that of a 301 whose `Location` is `location`. -/
def HasLocation (head location : List UInt8) : Prop :=
  CR ∉ location ∧ ∃ rest, head = cstr "HTTP/1.1 301 Moved Permanently\r\nLocation: " ++ location ++
    CRLF ++ rest

/-- The texts of a request hold no NUL and no CR. -/
theorem redirectHeader_location {path query : List UInt8} (keep : Bool)
    (hpath : ∀ c ∈ path, c ≠ 0 ∧ c ≠ CR) (hquery : ∀ c ∈ query, c ≠ 0 ∧ c ≠ CR) :
    HasLocation (redirectHeader path query keep) (redirectTarget path query) := by
  have hslice : ∀ s : List UInt8, (∀ c ∈ s, c ≠ 0 ∧ c ≠ CR) → formatSlice s = s := by
    intro s hs
    refine List.takeWhile_eq_self_iff.2 fun c hc => ?_
    simpa using (hs c hc).1
  constructor
  · intro hmem
    rw [redirectTarget] at hmem
    rcases List.mem_append.1 hmem with hmem | hmem
    · exact (hpath CR hmem).2 rfl
    · rcases List.mem_cons.1 hmem with hmem | hmem
      · cases hmem
      · split at hmem
        · cases hmem
        · rcases List.mem_cons.1 hmem with hmem | hmem
          · cases hmem
          · exact (hquery CR hmem).2 rfl
  · have hlength : cstr "\r\nContent-Length: 0\r\nConnection: "
        = CRLF ++ cstr "Content-Length: 0\r\nConnection: " := by decide
    have hslash : cstr "/" = [SLASH] := by decide
    have hmark : cstr "?" = [QMARK] := by decide
    refine ⟨cstr "Content-Length: 0\r\nConnection: " ++ connectionText keep ++ cstr "\r\n\r\n", ?_⟩
    rw [redirectHeader, redirectTarget, hslice path hpath, hslice query hquery, hlength, hslash,
      hmark]
    split
    · simp only [List.append_assoc, List.append_nil, List.cons_append, List.nil_append]
    · simp only [List.append_assoc, List.cons_append, List.nil_append]

/-- What a client takes for the path and the query of the location. -/
structure Read (path query h : List UInt8) (q f : Option (List UInt8)) : Prop where
  parse : uri.parse (redirectTarget path query)
    = ⟨none, (uri.cutAuthority h).1, (uri.cutAuthority h).2, q, f⟩
  rooted : h.head? = some SLASH
  whole : HASH ∉ path → h = path ++ [SLASH] ∧ (q.getD [] = query ↔ HASH ∉ query)
  part : HASH ∈ path → ∃ rest, path = h ++ HASH :: rest

/-- A number sign ends the path, or the query. -/
theorem redirectTarget_read {path query : List UInt8} (hslash : path.head? = some SLASH)
    (hmark : QMARK ∉ path) : ∃ h q f, Read path query h q f := by
  have hhead : ∀ l, (path ++ l).head? = some SLASH := by
    intro l
    rw [List.head?_append, hslash]
    rfl
  have hne : ∀ (c : UInt8), c ≠ SLASH → c ∉ path → c ∉ path ++ [SLASH] := by
    intro c hc hno hmem
    rcases List.mem_append.1 hmem with hmem | hmem
    · exact hno hmem
    · exact hc (List.mem_singleton.1 hmem)
  -- A `#` in the path cuts the rest off as a fragment, the slash that was added included.
  by_cases hhash : HASH ∈ path
  · obtain ⟨h, rest, rfl, hno⟩ := List.eq_append_cons_of_mem hhash
    have hroot : h.head? = some SLASH := by
      cases h with
      | nil => cases hslash
      | cons c h => exact hslash
    refine ⟨h, none, some (rest ++ SLASH :: if query = [] then [] else QMARK :: query), ?_, hroot,
      fun habs => absurd hhash habs, fun _ => ⟨rest, rfl⟩⟩
    refine parse_rooted (x := h) ?_ ?_ hroot
    · rw [redirectTarget, List.append_assoc]
      exact cut_append _ hno
    · exact cut_of_not_mem fun hmem => hmark (List.mem_append_left _ hmem)
  have hpath := hne HASH (by decide) hhash
  have hmark' := hne QMARK (by decide) hmark
  -- Without a query nothing is added after the slash.
  by_cases hnil : query = []
  · subst hnil
    refine ⟨path ++ [SLASH], none, none, ?_, hhead _, fun _ => ⟨rfl, ?_⟩, fun habs => absurd habs hhash⟩
    · exact parse_rooted (cut_of_not_mem hpath) (cut_of_not_mem hmark') (hhead _)
    · exact ⟨fun _ => List.not_mem_nil, fun _ => rfl⟩
  have htarget : redirectTarget path query = (path ++ [SLASH]) ++ QMARK :: query := by
    rw [redirectTarget, if_neg hnil, List.append_assoc]
    rfl
  -- A `#` in the query cuts off the rest of the query.
  by_cases hquery : HASH ∈ query
  · obtain ⟨q, rest, rfl, hno⟩ := List.eq_append_cons_of_mem hquery
    refine ⟨path ++ [SLASH], some q, some rest, ?_, hhead _, fun _ => ⟨rfl, ?_⟩,
      fun habs => absurd habs hhash⟩
    · refine parse_rooted (x := path ++ [SLASH] ++ QMARK :: q) ?_ (cut_append _ hmark') (hhead _)
      rw [htarget, ← List.cons_append, ← List.append_assoc]
      refine cut_append _ fun hmem => ?_
      rcases List.mem_append.1 hmem with hmem | hmem
      · exact hpath hmem
      · rcases List.mem_cons.1 hmem with hmem | hmem
        · cases hmem
        · exact hno hmem
    · refine ⟨fun hsame => ?_, fun habs => absurd hquery habs⟩
      have hlen := congrArg List.length hsame
      simp at hlen
  -- Otherwise path and query are read back as they were written.
  · refine ⟨path ++ [SLASH], some query, none, ?_, hhead _, fun _ => ⟨rfl, ?_⟩,
      fun habs => absurd habs hhash⟩
    · refine parse_rooted (x := path ++ [SLASH] ++ QMARK :: query) ?_ (cut_append _ hmark') (hhead _)
      rw [htarget]
      refine cut_of_not_mem fun hmem => ?_
      rcases List.mem_append.1 hmem with hmem | hmem
      · exact hpath hmem
      · rcases List.mem_cons.1 hmem with hmem | hmem
        · cases hmem
        · exact hquery hmem
    · exact ⟨fun _ => hquery, fun _ => rfl⟩

/-! ## Where it leads -/

/-- `location`, found at `base`, is on the same server. Its path is below the mount and names
the index file of the directory `rel`, with a slash at its end, so that it is not redirected
again. -/
structure LeadsBack (allowDotfiles : Bool) (base : Reference UInt8) (stem rel query location : List UInt8) :
    Prop where
  scheme : (uri.resolve base (uri.parse location)).scheme = base.scheme
  authority : (uri.resolve base (uri.parse location)).authority = base.authority
  path : ∃ url decoded, (uri.resolve base (uri.parse location)).path = stem ++ url ∧
    Decodes url decoded ∧ decoded.getLast? = some SLASH ∧
      normalizePath allowDotfiles decoded STATIC_PATH_MAX = some (rel ++ cstr "/index.html")
  query : (uri.resolve base (uri.parse location)).query.getD [] = query

/-- The path and the query of a request that a client reads as they are meant. -/
structure Returns (stem path query : List UInt8) : Prop where
  single : ¬ [SLASH, SLASH] <+: path
  path : HASH ∉ path
  query : HASH ∉ query
  stem : ∀ s ∈ pieces SLASH stem, ¬ uri.Dots s

/-- `url` is the path of the directory `rel`, without a slash at its end. -/
structure NamesDirectory (allowDotfiles : Bool) (url decoded rel : List UInt8) : Prop where
  decodes : Decodes url decoded
  normal : normalizePath allowDotfiles decoded STATIC_PATH_MAX = some rel
  last : decoded.getLast? ≠ some SLASH

/-- It is not empty, and below any stem it does not end with a slash. -/
theorem NamesDirectory.below_last {allowDotfiles : Bool} {url decoded rel : List UInt8}
    (h : NamesDirectory allowDotfiles url decoded rel) (stem : List UInt8) :
    (stem ++ url).getLast? ≠ some SLASH := by
  have hurl : url.getLast? ≠ some SLASH := fun hl => h.last (h.decodes.getLast_slash.2 hl)
  have hne : url ≠ [] := by
    rintro rfl
    cases h.decodes
    have hnormal := h.normal
    rw [normalizePath, if_neg (by decide)] at hnormal
    cases hnormal
  rw [List.getLast?_append_of_ne_nil _ hne]
  exact hurl

section Leads

variable {allowDotfiles : Bool} {url decoded rel stem path query h : List UInt8}
  {base : Reference UInt8} {q f : Option (List UInt8)}

theorem pieces_rooted (s : List UInt8) {l : List UInt8} (hslash : l.head? = some SLASH) :
    pieces SLASH (s ++ l) = pieces SLASH s ++ pieces SLASH l := by
  cases l with
  | nil => cases hslash
  | cons c l =>
      rw [Option.some.inj hslash, pieces_append, pieces_sep_cons]

/-- A decoded path begins with a slash only where the path does. -/
theorem Decodes.head_slash (hd : Decodes url decoded) (hslash : decoded.head? = some SLASH) :
    url.head? = some SLASH := by
  cases hd with
  | nil => cases hslash
  | byte c => exact hslash
  | escape x y c hi lo hx hy hc hsep => exact absurd (Option.some.inj hslash) hsep.1

namespace NamesDirectory

theorem normal_iff (hn : NamesDirectory allowDotfiles url decoded rel) :
    decoded.head? = some SLASH ∧ (∀ s ∈ pieces SLASH decoded, PlainSegment allowDotfiles s) ∧
      rel = joined (pieces SLASH decoded) := by
  obtain ⟨hhead, hplain, hrel, -⟩ := (normalizePath_iff hn.decodes.no_control).1 hn.normal
  rw [pathSegments, if_neg hn.last, List.append_nil] at hplain hrel
  exact ⟨hhead, hplain, hrel⟩

theorem head (hn : NamesDirectory allowDotfiles url decoded rel) : url.head? = some SLASH :=
  hn.decodes.head_slash hn.normal_iff.1

theorem index_join (hn : NamesDirectory allowDotfiles url decoded rel) :
    rel ++ cstr "/index.html" = joined (pieces SLASH decoded ++ [cstr "index.html"]) := by
  obtain ⟨hhead, hplain, hrel⟩ := hn.normal_iff
  have hsegs : ∀ s ∈ pieces SLASH decoded, s ≠ [] := fun s hs => (hplain s hs).nonempty
  have hsome := pathSegments_ne_nil hhead
  rw [pathSegments, if_neg hn.last, List.append_nil] at hsome
  have hindex : cstr "/index.html" = [SLASH] ++ cstr "index.html" := by decide
  rw [← joined_concat hsegs, if_neg (joined_ne hsegs hsome), hrel, hindex, List.append_assoc]

/-- A path of the index file has the segments of the directory. -/
theorem index_pieces (hn : NamesDirectory allowDotfiles url decoded rel) {url' decoded' : List UInt8}
    (hd : Decodes url' decoded') (hlast : decoded'.getLast? = some SLASH)
    (hnorm : normalizePath allowDotfiles decoded' STATIC_PATH_MAX = some (rel ++ cstr "/index.html")) :
    pieces SLASH decoded' = pieces SLASH decoded := by
  obtain ⟨-, hplain, hrel, -⟩ := (normalizePath_iff hd.no_control).1 hnorm
  rw [pathSegments, if_pos hlast] at hplain hrel
  rw [hn.index_join] at hrel
  have hcut : ∀ segs : List (List UInt8), (∀ s ∈ segs, PlainSegment allowDotfiles s) → segs ≠ [] →
      pieces SLASH (joined segs) = segs := by
    intro segs hsegs hne
    refine pieces_intercalate hne fun s hs => ⟨(hsegs s hs).nonempty, fun hmem => ?_⟩
    exact ((hsegs s hs).bytes SLASH hmem).1 rfl
  have hplain' : ∀ s ∈ pieces SLASH decoded ++ [cstr "index.html"], PlainSegment allowDotfiles s := by
    intro s hs
    rcases List.mem_append.1 hs with hs | hs
    · exact hn.normal_iff.2.1 s hs
    · exact List.mem_singleton.1 hs ▸ indexHtml_plain
  have hsame := congrArg (pieces SLASH) hrel
  rw [hcut _ hplain (by simp), hcut _ hplain' (by simp)] at hsame
  exact (List.append_cancel_right hsame).symm

/-- No segment of the path is a dot segment. -/
theorem pieces_dots (hn : NamesDirectory allowDotfiles url decoded rel) :
    ∀ s ∈ pieces SLASH url, ¬ uri.Dots s := by
  intro s hs hdots
  have hdot : Decodes s s := by
    rcases hdots with rfl | rfl
    · exact .byte DOT (by decide) (by decide) .nil
    · exact .byte DOT (by decide) (by decide) (.byte DOT (by decide) (by decide) .nil)
  obtain ⟨i, hi, hget⟩ := List.getElem_of_mem hs
  have hpieces := hn.decodes.pieces url.length le_rfl
  have hi' : i < (pieces SLASH decoded).length := hpieces.length_eq ▸ hi
  have hat := hpieces.get hi hi'
  rw [List.get_eq_getElem, List.get_eq_getElem, hget] at hat
  have hplain := hn.normal_iff.2.1 _ (List.getElem_mem hi')
  rw [← hdot.unique hat] at hplain
  rcases hdots with rfl | rfl
  · exact hplain.dot rfl
  · exact hplain.dotdot rfl

/-- The root of the server has a slash at its end. -/
theorem ne_root (hn : NamesDirectory allowDotfiles url decoded rel) (hpath : path = stem ++ url) :
    path ≠ [SLASH] := by
  intro hroot
  have hurl : url = [SLASH] := by
    rcases List.append_eq_singleton_iff.1 (hpath.symm.trans hroot) with ⟨-, hurl⟩ | ⟨-, hurl⟩
    · exact hurl
    · rw [hurl] at hn
      cases hn.head
  have hdecodes := hn.decodes
  rw [hurl] at hdecodes
  have hself : Decodes [SLASH] [SLASH] := .byte SLASH (by decide) (by decide) .nil
  exact hn.last (hdecodes.unique hself ▸ rfl)

/-- With a slash at its end the path names the index file. -/
theorem index (hn : NamesDirectory allowDotfiles url decoded rel)
    (hshort : decoded.length + 12 < STATIC_PATH_MAX) :
    normalizePath allowDotfiles (decoded ++ [SLASH]) STATIC_PATH_MAX
      = some (rel ++ cstr "/index.html") := by
  obtain ⟨hhead, hplain, hrel⟩ := hn.normal_iff
  have hctl : ∀ d ∈ decoded ++ [SLASH], ¬ (d < 0x20 ∨ d = DEL) := by
    intro d hd
    rcases List.mem_append.1 hd with hd | hd
    · exact hn.decodes.no_control d hd
    · rw [List.mem_singleton.1 hd]
      decide
  have hsegs : pathSegments (decoded ++ [SLASH]) = pieces SLASH decoded ++ [cstr "index.html"] := by
    rw [pathSegments, if_pos List.getLast?_concat, pieces_append, pieces_nil, List.append_nil]
  refine (normalizePath_iff hctl).2 ⟨?_, ?_, ?_, ?_⟩
  · rw [List.head?_append, hhead]
    rfl
  · rw [hsegs]
    intro s hs
    rcases List.mem_append.1 hs with hs | hs
    · exact hplain s hs
    · exact List.mem_singleton.1 hs ▸ indexHtml_plain
  · rw [hsegs, hn.index_join]
  · have hle := joined_pieces_le decoded.length (le_refl decoded.length)
    have hindex : (cstr "/index.html").length = 11 := by decide
    rw [List.length_append, hrel, hindex]
    omega

end NamesDirectory

/-- A slash at the end makes no second one at the start. -/
theorem double_append (hne : path ≠ [SLASH]) (h : ¬ [SLASH, SLASH] <+: path) :
    ¬ [SLASH, SLASH] <+: path ++ [SLASH] := by
  rintro ⟨r, hdouble⟩
  match path, hdouble with
  | [], hdouble => cases (List.cons.inj hdouble).2
  | [c], hdouble => exact hne (by rw [(List.cons.inj hdouble).1])
  | c :: d :: p, hdouble =>
      obtain ⟨rfl, hrest⟩ : SLASH = c ∧ SLASH :: r = d :: (p ++ [SLASH]) := List.cons.inj hdouble
      obtain ⟨rfl, -⟩ := List.cons.inj hrest
      exact h ⟨p, rfl⟩

theorem removeDotSegments_length {p : List UInt8} (hrooted : uri.Rooted p) :
    (pieces SLASH (uri.removeDotSegments p)).length ≤ (pieces SLASH p).length :=
  (removeDotSegments_pieces (D := uri) hrooted).length_le.trans (List.length_filter_le _ _)

namespace LeadsBack

variable {location : List UInt8}

/-- The location leads as deep as the path. -/
theorem depth (hl : LeadsBack allowDotfiles base stem rel query location)
    (hn : NamesDirectory allowDotfiles url decoded rel) :
    (pieces SLASH (uri.resolve base (uri.parse location)).path).length
      = (pieces SLASH (stem ++ url)).length := by
  obtain ⟨url', decoded', hpath, hd, hlast, hnorm⟩ := hl.path
  have hhead := hd.head_slash ((normalizePath_iff hd.no_control).1 hnorm).1
  have hurl' := (hd.pieces url'.length le_rfl).length_eq
  have hurl := (hn.decodes.pieces url.length le_rfl).length_eq
  rw [hpath, pieces_rooted stem hhead, pieces_rooted stem hn.head, List.length_append,
    List.length_append, hurl', hurl, hn.index_pieces hd hlast hnorm]

/-- After two slashes the first name is an authority, and what is left of the path is not
deep enough. -/
theorem single (hl : LeadsBack allowDotfiles base stem rel query (redirectTarget path query))
    (hn : NamesDirectory allowDotfiles url decoded rel) (hr : Read path query h q f)
    (hpath : path = stem ++ url) {a : List UInt8} (ha : base.authority = some a) (hne : a ≠ [])
    (hle : (pieces SLASH h).length ≤ (pieces SLASH path).length) : ¬ [SLASH, SLASH] <+: h := by
  rintro ⟨r, rfl⟩
  have hdepth := hl.depth hn
  have hauthority := hl.authority
  have hcut : uri.cutAuthority ([SLASH, SLASH] ++ r)
      = (some (r.takeWhile (· != SLASH)), r.dropWhile (· != SLASH)) := cutAuthority_some (D := uri) r
  rw [hr.parse, hcut, resolve_authority] at hdepth hauthority
  have hname : r.takeWhile (· != SLASH) = a := Option.some.inj (hauthority.trans ha)
  have hcount : pieces SLASH ([SLASH, SLASH] ++ r) = a :: pieces SLASH (r.dropWhile (· != SLASH)) := by
    rw [List.cons_append, List.cons_append, List.nil_append, pieces_sep_cons, pieces_sep_cons,
      pieces_span r, hname, pieces_of_not_mem hne (hname ▸ not_mem_takeWhile_ne r)]
    rfl
  have hshort := removeDotSegments_length (rooted_dropWhile (D := uri) r)
  rw [hcount, List.length_cons, hpath] at hle
  exact absurd (hdepth ▸ hshort) (Nat.not_le.2 hle)

/-- A path that is cut at a number sign is not the whole path. -/
theorem no_hash (hl : LeadsBack allowDotfiles base stem rel query (redirectTarget path query))
    (hn : NamesDirectory allowDotfiles url decoded rel) (hr : Read path query h q f)
    (hpath : path = stem ++ url) {a : List UInt8} (ha : base.authority = some a) (hne : a ≠ []) :
    HASH ∉ path := by
  intro hhash
  obtain ⟨rest, hrest⟩ := hr.part hhash
  have hle : (pieces SLASH h).length ≤ (pieces SLASH path).length := by
    rw [hrest]
    exact pieces_length_le h.length (HASH :: rest) le_rfl
  have hsingle := hl.single hn hr hpath ha hne hle
  have hdepth := hl.depth hn
  obtain ⟨url', decoded', hpath', hd, hlast, hnorm⟩ := hl.path
  rw [hr.parse, cutAuthority_none hsingle, resolve_rooted hr.rooted] at hdepth hpath'
  dsimp only at hdepth hpath'
  -- It is as deep as the whole one, so that nothing was taken out of it.
  have hkept : uri.removeDotSegments h = h := by
    refine removeDotSegments_eq_self (.inr hr.rooted) fun s hs => ?_
    have hlen : (pieces SLASH (uri.removeDotSegments h)).length
        ≤ ((pieces SLASH h).filter fun s => ¬ uri.Dots s).length :=
      (removeDotSegments_pieces (D := uri) (.inr hr.rooted)).length_le
    have hfilter := List.length_filter_le (fun s => decide (¬ uri.Dots s)) (pieces SLASH h)
    rw [← hpath] at hdepth
    have hsame : ((pieces SLASH h).filter fun s => ¬ uri.Dots s).length = (pieces SLASH h).length := by
      omega
    simpa using List.length_filter_eq_length_iff.1 hsame s hs
  rw [hkept] at hpath'
  have hsplit : url = url' ++ HASH :: rest := by
    rw [hpath', List.append_assoc, hpath] at hrest
    exact List.append_cancel_left hrest
  obtain ⟨du, dv, hdecoded, hdu, -⟩ := hn.decodes.split (by decide) (by decide) hsplit
  have hpieces := hn.index_pieces hd hlast hnorm
  have hflat := congrArg List.flatten hpieces
  rw [flatten_pieces, flatten_pieces, hdecoded, hdu.unique hd, List.filter_append,
    List.filter_cons_of_pos (by decide)] at hflat
  have hlen := congrArg List.length hflat
  simp only [List.length_append, List.length_cons] at hlen
  omega

end LeadsBack

/-- The location leads back exactly where the client reads the path and the query as they
are meant, on a server that has a name. -/
theorem leadsBack_iff (hn : NamesDirectory allowDotfiles url decoded rel) (hpath : path = stem ++ url)
    (hslash : path.head? = some SLASH) (hmark : QMARK ∉ path)
    (hshort : decoded.length + 12 < STATIC_PATH_MAX) {a : List UInt8} (ha : base.authority = some a)
    (hne : a ≠ []) : LeadsBack allowDotfiles base stem rel query (redirectTarget path query) ↔
      Returns stem path query := by
  obtain ⟨h, q, f, hr⟩ := @redirectTarget_read path query hslash hmark
  have hend : pieces SLASH (path ++ [SLASH]) = pieces SLASH path := by
    rw [pieces_append, pieces_nil, List.append_nil]
  constructor
  · intro hl
    have hhash := hl.no_hash hn hr hpath ha hne
    obtain ⟨rfl, hquery⟩ := hr.whole hhash
    have hsingle := hl.single hn hr hpath ha hne (by rw [hend])
    obtain ⟨url', decoded', hpath', hd, -, hnorm⟩ := hl.path
    have hsame := hl.query
    rw [hr.parse, cutAuthority_none hsingle, resolve_rooted hr.rooted] at hpath' hsame
    refine ⟨fun hdouble => hsingle (hdouble.trans (List.prefix_append _ _)), hhash,
      hquery.1 hsame, fun s hs => ?_⟩
    have hhead := hd.head_slash ((normalizePath_iff hd.no_control).1 hnorm).1
    have hmem : s ∈ pieces SLASH (uri.removeDotSegments (path ++ [SLASH])) := by
      have hparts := pieces_rooted stem hhead
      dsimp only at hpath'
      rw [hpath', hparts]
      exact List.mem_append_left _ hs
    have hkept := (removeDotSegments_pieces (D := uri) (.inr hr.rooted)).subset hmem
    simpa using (List.mem_filter.1 hkept).2
  · rintro ⟨hsingle, hhash, hno, hstem⟩
    obtain ⟨rfl, hquery⟩ := hr.whole hhash
    have hsingle' := double_append (hn.ne_root hpath) hsingle
    have hdots : ∀ s ∈ pieces SLASH (path ++ [SLASH]), ¬ uri.Dots s := by
      rw [hend, hpath, pieces_rooted stem hn.head]
      intro s hs
      rcases List.mem_append.1 hs with hs | hs
      · exact hstem s hs
      · exact hn.pieces_dots s hs
    have hresolved : uri.resolve base (uri.parse (redirectTarget path query))
        = ⟨base.scheme, base.authority, path ++ [SLASH], q, f⟩ := by
      rw [hr.parse, cutAuthority_none hsingle', resolve_rooted hr.rooted,
        removeDotSegments_eq_self (.inr hr.rooted) hdots]
    refine ⟨by rw [hresolved], by rw [hresolved], ⟨url ++ [SLASH], decoded ++ [SLASH], ?_, ?_, ?_, ?_⟩, ?_⟩
    · rw [hresolved, hpath, List.append_assoc]
    · exact hn.decodes.append (.byte SLASH (by decide) (by decide) .nil)
    · exact List.getLast?_concat
    · exact hn.index hshort
    · rw [hresolved]
      exact hquery.2 hno

end Leads

end TinyServer.Static
