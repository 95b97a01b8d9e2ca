import TinyServer.Http.Accepted

/-!
# The two forms of a target (`parse_request_target`)

What the parser stores of a target is a text of the path and a text of the query, both cut
from the same scan (`AcceptedHead.path_text`, `AcceptedHead.query_text`). In absolute-form
the scan starts at the first slash after the scheme. With an empty path that slash is one
of the query, or there is none, so the query is lost (`sameTexts_iff`).
-/

set_option autoImplicit false

namespace TinyServer.Http

/-! ## Texts of an accepted request -/

namespace Target

/-- The path of a target up to its query. -/
def pathText (t : Target) : List UInt8 := t.path.takeWhile (· != QMARK)

/-- What follows the first question mark of the path. -/
def queryText (t : Target) : List UInt8 := (t.path.dropWhile (· != QMARK)).drop 1

/-- The path of a target ends at its first question mark. -/
theorem pathText_of_split {t : Target} {p q : List UInt8} (h : t.path = p ++ QMARK :: q)
    (hp : QMARK ∉ p) : t.pathText = p ∧ t.queryText = q := by
  have hall : ∀ c ∈ p, (c != QMARK) = true := fun c hc => by
    simpa using fun h : c = QMARK => hp (h ▸ hc)
  have hstop : (QMARK :: q).takeWhile (· != QMARK) = [] ∧
      (QMARK :: q).dropWhile (· != QMARK) = QMARK :: q := by simp
  rw [pathText, queryText, h, List.takeWhile_append_of_pos hall, List.dropWhile_append_of_pos hall]
  simp [hstop]

/-- Without a question mark it is all path. -/
theorem pathText_of_no_query {t : Target} (h : QMARK ∉ t.path) :
    t.pathText = t.path ∧ t.queryText = [] := by
  have hall : ∀ c ∈ t.path, (c != QMARK) = true := fun c hc => by
    simpa using fun e : c = QMARK => h (e ▸ hc)
  rw [pathText, queryText, List.takeWhile_eq_self_iff.2 hall, List.dropWhile_eq_nil_iff.2 hall]
  exact ⟨rfl, rfl⟩

/-- An absolute target without a slash after its authority has no path. -/
theorem pathIndex_eq_none {t : Target} (h : t.pathIndex = none) : t.path = [] := by
  cases t with
  | origin path _ _ => cases h
  | absolute s a p _ _ _ _ =>
      simp only [pathIndex] at h
      split at h
      · rename_i hp
        exact hp
      · cases h

/-- A path that is there begins with a slash. -/
theorem path_head (t : Target) : t.path = [] ∨ t.path.head? = some SLASH := by
  cases t with
  | origin path h _ => exact .inr h
  | absolute _ _ path _ _ h _ => exact h

end Target

/-- A part of the request line of a rendered head. -/
theorem Head.slice_text {hd : Head} {tail : List UInt8} {a b c : List UInt8}
    (h : hd.requestLine = a ++ b ++ c) (hlen : hd.render.length ≤ HTTP_PARSE_MAX_LEN) :
    HttpSlice.bytes ⟨u16 a.length, u16 b.length⟩ (hd.render ++ tail) = b := by
  have hle : a.length + b.length ≤ HTTP_PARSE_MAX_LEN := by
    have hl := congrArg List.length h
    have hr := hd.render_length
    simp only [List.length_append] at hl
    simp only [Head.blockOff] at hr
    omega
  rw [hd.render_append, h]
  simp only [List.append_assoc]
  exact bytes_slice hle

/-- The texts of the path and of the query in the record of a head. -/
theorem Head.lineRequest_texts {hd : Head} (tail : List UInt8)
    (hlen : hd.render.length ≤ HTTP_PARSE_MAX_LEN) :
    hd.lineRequest.path.bytes (hd.render ++ tail) = hd.target.pathText ∧
      hd.lineRequest.query.bytes (hd.render ++ tail) = hd.target.queryText := by
  have hzero : ∀ buf, HttpSlice.bytes ⟨0, 0⟩ buf = [] := fun buf => List.take_zero
  unfold lineRequest lineSlices targetSlices
  cases hi : hd.target.pathIndex with
  | none =>
      have hp := Target.pathIndex_eq_none hi
      obtain ⟨h₁, h₂⟩ := Target.pathText_of_no_query (t := hd.target) (by simp [hp])
      rw [h₁, h₂, hp]
      exact ⟨hzero _, hzero _⟩
  | some start =>
      -- what stands before the path in the request line
      have hpre : (hd.method ++ SP :: hd.target.bytes.take start).length
          = hd.method.length + 1 + start := by
        have := hd.target.pathIndex_le hi
        simp only [List.length_append, List.length_cons, List.length_take]
        omega
      have hline : hd.requestLine = (hd.method ++ SP :: hd.target.bytes.take start) ++
          (hd.target.path ++ SP :: Head.version hd.minor) := by
        rw [← hd.target.drop_pathIndex hi, requestLine]
        simp only [List.append_assoc, List.cons_append]
        rw [← List.append_assoc (List.take start _), List.take_append_drop]
      cases hq : memchr hd.target.path QMARK with
      | none =>
          have hno := memchr_eq_none.1 hq
          obtain ⟨h₁, h₂⟩ := Target.pathText_of_no_query hno
          rw [h₁, h₂]
          refine ⟨?_, hzero _⟩
          simp only
          rw [← hpre]
          exact slice_text (by rw [hline]; simp only [List.append_assoc]; rfl) hlen
      | some q =>
          obtain ⟨p, r, hsplit, hno, rfl⟩ := memchr_eq_some hq
          obtain ⟨h₁, h₂⟩ := Target.pathText_of_split hsplit hno
          have hpast : ((hd.method ++ SP :: hd.target.bytes.take start) ++ p ++ [QMARK]).length
              = hd.method.length + 1 + start + (p.length + 1) := by
            rw [List.length_append, List.length_append, hpre]
            simp
            omega
          have hquery : hd.target.path.length - (p.length + 1) = r.length := by
            rw [hsplit, List.length_append, List.length_cons]
            omega
          rw [h₁, h₂]
          simp only [hquery]
          rw [← hpast, ← hpre]
          constructor
          · exact slice_text (c := QMARK :: (r ++ SP :: Head.version hd.minor))
              (by rw [hline, hsplit]; simp) hlen
          · exact slice_text (c := SP :: Head.version hd.minor)
              (by rw [hline, hsplit]; simp) hlen

/-- The texts of the path and of the query of an accepted head. -/
theorem HeadResult.texts {hd : Head} {req : HttpRequest} (h : HeadResult hd req)
    (hlen : hd.render.length ≤ HTTP_PARSE_MAX_LEN) (tail : List UInt8) :
    req.path.bytes (hd.render ++ tail) = hd.target.pathText ∧
      req.query.bytes (hd.render ++ tail) = hd.target.queryText := by
  obtain ⟨r, seen, hf, rfl⟩ := h
  obtain ⟨-, hpath, hquery, -⟩ := hf.same
  rw [show r.path = hd.lineRequest.path from hpath, show r.query = hd.lineRequest.query from hquery]
  exact hd.lineRequest_texts tail hlen

/-- A head that fits is accepted, whatever follows it. -/
theorem httpParseRequest_head {hd : Head} (hr : hd.Rules) (ht : hd.count .transferEncoding = 0)
    (hlen : hd.render.length ≤ HTTP_PARSE_MAX_LEN) (tail : List UInt8) :
    ∃ req, httpParseRequest (hd.render ++ tail) = .ok req ∧ HeadResult hd req := by
  by_cases hle : (hd.render ++ tail).length ≤ HTTP_PARSE_MAX_LEN
  · rw [httpParseRequest_of_le hle]
    exact parse_render_ok hr ht tail
  · rw [httpParseRequest_of_lt (by omega), List.take_append, List.take_of_length_le hlen]
    obtain ⟨req, hparse, hres⟩ := parse_render_ok hr ht
      (tail.take (HTTP_PARSE_MAX_LEN - hd.render.length))
    exact ⟨req, by rw [hparse], hres⟩

/-! ## A URL and its two forms -/

/-- A URL without its scheme: the path has no query in it, and every byte is one of a
target. -/
structure Url where
  authority : List UInt8
  path : List UInt8
  query : Option (List UInt8)
  authority_chars : authority.all isTargetChar = true
  authority_delim : ∀ c ∈ authority, c ≠ SLASH ∧ c ≠ QMARK ∧ c ≠ 0x23
  path_slash : path = [] ∨ path.head? = some SLASH
  path_chars : path.all isTargetChar = true
  path_query : QMARK ∉ path
  query_chars : (query.getD []).all isTargetChar = true

namespace Url

variable (u : Url)

/-- The query with its question mark, if there is one. -/
def queryBytes : List UInt8 :=
  match u.query with
  | none => []
  | some q => QMARK :: q

theorem queryBytes_chars : u.queryBytes.all isTargetChar = true := by
  have h := u.query_chars
  unfold queryBytes
  cases hq : u.query with
  | none => rfl
  | some q =>
      rw [hq] at h
      exact h

/-- What an empty path is written as. -/
def rooted : List UInt8 := if u.path = [] then [SLASH] else u.path

/-- The path of the origin form begins with a slash. -/
theorem rooted_head : u.rooted.head? = some SLASH := by
  unfold rooted
  rcases u.path_slash with h | h
  · simp [h]
  · split
    · rfl
    · exact h

theorem rooted_chars : u.rooted.all isTargetChar = true := by
  unfold rooted
  split
  · decide
  · exact u.path_chars

/-- It has no question mark, so the query is not part of it. -/
theorem rooted_query : QMARK ∉ u.rooted := by
  unfold rooted
  split
  · decide
  · exact u.path_query

/-- `P[?Q]`. -/
def originForm : Target :=
  .origin (u.rooted ++ u.queryBytes)
    (by rw [List.head?_append, u.rooted_head]; rfl)
    (by rw [List.all_append, u.rooted_chars, u.queryBytes_chars]; rfl)

/-- `A P[?Q]`. -/
def hierPart : List UInt8 := u.authority ++ u.path ++ u.queryBytes

theorem hierPart_chars : u.hierPart.all isTargetChar = true := by
  simp [hierPart, u.authority_chars, u.path_chars, u.queryBytes_chars]

/-- `http://A P[?Q]`, as the parser takes it apart: at the first slash. -/
def absoluteForm (scheme : List UInt8) (hs : isScheme scheme) : Target :=
  .absolute scheme (u.hierPart.takeWhile (· != SLASH)) (u.hierPart.dropWhile (· != SLASH)) hs
    (by
      intro c hc
      have hslash : c ≠ SLASH := by simpa using List.mem_takeWhile_imp hc
      have hchar := List.all_eq_true.1 u.hierPart_chars c
        ((List.takeWhile_prefix _).subset hc)
      exact ⟨hslash, fun h => absurd (h ▸ hchar) (by decide),
        fun h => absurd (h ▸ hchar) (by decide)⟩)
    (by
      by_cases h : u.hierPart.dropWhile (· != SLASH) = []
      · exact .inl h
      · obtain ⟨c, t, hc⟩ := List.exists_cons_of_ne_nil h
        have := List.head_dropWhile_not (· != SLASH) h
        simp_all)
    (by
      refine List.all_eq_true.2 fun c hc => ?_
      exact List.all_eq_true.1 u.hierPart_chars c ((List.dropWhile_suffix _).subset hc))

/-- The bytes of the absolute form. -/
theorem absoluteForm_bytes (scheme : List UInt8) (hs : isScheme scheme) :
    (u.absoluteForm scheme hs).bytes
      = scheme ++ (u.authority ++ u.path ++ u.queryBytes) := by
  simp only [absoluteForm, Target.bytes, List.append_assoc, List.takeWhile_append_dropWhile]
  simp only [hierPart, List.append_assoc]

/-- The origin form has the path and the query of the URI. -/
theorem originForm_texts :
    u.originForm.pathText = u.rooted ∧ u.originForm.queryText = u.query.getD [] := by
  cases hq : u.query with
  | none =>
      have hpath : u.originForm.path = u.rooted := by
        simp [originForm, Target.path, queryBytes, hq]
      rw [← hpath]
      exact Target.pathText_of_no_query (hpath ▸ u.rooted_query)
  | some q =>
      exact Target.pathText_of_split (by simp [originForm, Target.path, queryBytes, hq])
        u.rooted_query

variable (scheme : List UInt8) (hs : isScheme scheme)

/-- The scan for the path goes over the authority, and over the query where the path is
empty. -/
theorem absoluteForm_path :
    (u.absoluteForm scheme hs).path
      = if u.path = [] then u.queryBytes.dropWhile (· != SLASH) else u.path ++ u.queryBytes := by
  have hall : ∀ c ∈ u.authority, (c != SLASH) = true := fun c hc => by
    simpa using (u.authority_delim c hc).1
  show (u.authority ++ u.path ++ u.queryBytes).dropWhile _ = _
  rw [List.append_assoc, List.dropWhile_append_of_pos hall]
  by_cases hp : u.path = []
  · rw [if_pos hp, hp, List.nil_append]
  · rw [if_neg hp]
    have hhead := u.path_slash.resolve_left hp
    obtain ⟨c, p, hc⟩ := List.exists_cons_of_ne_nil hp
    rw [hc] at hhead ⊢
    obtain rfl : c = SLASH := by simpa using hhead
    simp

/-- With a path, so has the absolute form. -/
theorem absoluteForm_texts (hp : u.path ≠ []) :
    (u.absoluteForm scheme hs).pathText = u.path ∧
      (u.absoluteForm scheme hs).queryText = u.query.getD [] := by
  have hpath := u.absoluteForm_path scheme hs
  rw [if_neg hp] at hpath
  cases hq : u.query with
  | none =>
      have hpath : (u.absoluteForm scheme hs).path = u.path := by
        simpa [queryBytes, hq] using hpath
      rw [← hpath]
      exact Target.pathText_of_no_query (hpath ▸ u.path_query)
  | some q => exact Target.pathText_of_split (by simpa [queryBytes, hq] using hpath) u.path_query

/-- With an empty path the query text is a part of what follows the query's first slash. -/
theorem absoluteForm_query_lt (hp : u.path = []) {q : List UInt8} (hq : u.query = some q)
    (hne : q ≠ []) : (u.absoluteForm scheme hs).queryText.length < q.length := by
  have hpath := u.absoluteForm_path scheme hs
  rw [if_pos hp, queryBytes, hq] at hpath
  have hskip : (QMARK :: q).dropWhile (· != SLASH) = q.dropWhile (· != SLASH) :=
    List.dropWhile_cons_of_pos (by decide)
  have hle := ((List.dropWhile_suffix (l := q.dropWhile (· != SLASH)) (· != QMARK)).length_le).trans
    (List.dropWhile_suffix (l := q) (· != SLASH)).length_le
  have hpos := List.length_pos_iff.2 hne
  rw [Target.queryText, hpath, hskip, List.length_drop]
  omega

/-- Without a path and a query the absolute form has neither. -/
theorem absoluteForm_empty (hp : u.path = []) (hq : u.query.getD [] = []) :
    (u.absoluteForm scheme hs).pathText = [] ∧ (u.absoluteForm scheme hs).queryText = [] := by
  have hpath := u.absoluteForm_path scheme hs
  have hnone : u.queryBytes.dropWhile (· != SLASH) = [] := by
    unfold queryBytes
    cases h : u.query with
    | none => rfl
    | some q =>
        obtain rfl : q = [] := by simpa [h] using hq
        rfl
  rw [if_pos hp, hnone] at hpath
  simpa [hpath] using Target.pathText_of_no_query (t := u.absoluteForm scheme hs) (by simp [hpath])

end Url

/-- The head with another target. -/
def Head.withTarget (hd : Head) (t : Target) : Head := { hd with target := t }

theorem Head.Rules.withTarget {hd : Head} (h : hd.Rules) (t : Target) : (hd.withTarget t).Rules :=
  ⟨h.host_once, h.host_valid, h.length_once, h.length_valid, h.host_present, h.transfer_alone⟩

/-- Two targets in one head differ in length as the heads do. -/
theorem Head.withTarget_length (hd : Head) (t : Target) :
    (hd.withTarget t).render.length + hd.target.bytes.length
      = hd.render.length + t.bytes.length := by
  simp only [withTarget, render, requestLine, List.length_append, List.length_cons]
  omega

/-- The path that a request asks for: `/` where the text is empty. -/
def askedPath (text : List UInt8) : List UInt8 := if text = [] then [SLASH] else text

/-- The two records ask for the same path with the same query. -/
def SameTexts (buf : List UInt8) (req : HttpRequest) (buf' : List UInt8) (req' : HttpRequest) :
    Prop :=
  askedPath (req.path.bytes buf) = askedPath (req'.path.bytes buf') ∧
    req.query.bytes buf = req'.query.bytes buf'

/-- The two forms of a URL are accepted alike, and ask for the same exactly where the path
is not empty or there is no query to lose. -/
theorem sameTexts_iff (u : Url) {scheme : List UInt8} (hs : isScheme scheme) {hd : Head}
    (hr : hd.Rules) (ht : hd.count .transferEncoding = 0)
    (hlen : (hd.withTarget (u.absoluteForm scheme hs)).render.length ≤ HTTP_PARSE_MAX_LEN)
    (tail : List UInt8) :
    ∃ ra ro,
      httpParseRequest ((hd.withTarget (u.absoluteForm scheme hs)).render ++ tail) = .ok ra ∧
      httpParseRequest ((hd.withTarget u.originForm).render ++ tail) = .ok ro ∧
      (SameTexts ((hd.withTarget (u.absoluteForm scheme hs)).render ++ tail) ra
          ((hd.withTarget u.originForm).render ++ tail) ro
        ↔ u.path ≠ [] ∨ u.query.getD [] = []) := by
  have hshort : (hd.withTarget u.originForm).render.length ≤ HTTP_PARSE_MAX_LEN := by
    have h₁ := hd.withTarget_length (u.absoluteForm scheme hs)
    have h₂ := hd.withTarget_length u.originForm
    have h₃ : u.originForm.bytes.length ≤ (u.absoluteForm scheme hs).bytes.length := by
      have hscheme : 1 ≤ scheme.length := by
        rcases hs with h | h
        · have : scheme.length = 7 := by simpa [cstr] using congrArg List.length h
          omega
        · have : scheme.length = 8 := by simpa [cstr] using congrArg List.length h
          omega
      have hrooted : u.rooted.length ≤ u.path.length + 1 := by
        unfold Url.rooted
        split <;> simp
      rw [u.absoluteForm_bytes scheme hs]
      simp only [Url.originForm, Target.bytes, List.length_append]
      omega
    omega
  obtain ⟨ra, hra, hresa⟩ := httpParseRequest_head (hr.withTarget (u.absoluteForm scheme hs))
    ht hlen tail
  obtain ⟨ro, hro, hreso⟩ := httpParseRequest_head (hr.withTarget u.originForm) ht hshort tail
  obtain ⟨hpa, hqa⟩ := hresa.texts hlen tail
  obtain ⟨hpo, hqo⟩ := hreso.texts hshort tail
  refine ⟨ra, ro, hra, hro, ?_⟩
  obtain ⟨ho₁, ho₂⟩ := u.originForm_texts
  rw [SameTexts, hpa, hqa, hpo, hqo]
  simp only [Head.withTarget, ho₁, ho₂]
  constructor
  · rintro ⟨-, hquery⟩
    by_contra hno
    push Not at hno
    obtain ⟨hp, hq⟩ := hno
    cases hu : u.query with
    | none => simp [hu] at hq
    | some q =>
        rw [hu] at hq hquery
        have hlt := u.absoluteForm_query_lt scheme hs hp hu hq
        rw [hquery] at hlt
        exact Nat.lt_irrefl _ hlt
  · intro h
    by_cases hp : u.path = []
    · have hq := h.resolve_left (fun hne => hne hp)
      obtain ⟨h₁, h₂⟩ := u.absoluteForm_empty scheme hs hp hq
      rw [h₁, h₂, hq]
      simp [askedPath, Url.rooted, hp]
    · obtain ⟨h₁, h₂⟩ := u.absoluteForm_texts scheme hs hp
      rw [h₁, h₂]
      simp [Url.rooted, hp]

/-- `a?x/y`. -/
def slashInQuery : Url where
  authority := cstr "a"
  path := []
  query := some (cstr "x/y")
  authority_chars := by decide
  authority_delim := by
    intro c hc
    obtain rfl : c = 0x61 := List.mem_singleton.1 hc
    decide
  path_slash := .inl rfl
  path_chars := rfl
  path_query := by simp
  query_chars := by decide

theorem isScheme_http : isScheme (cstr "HTTP://") := .inl (by decide)

/-- A slash in the query of a URI without a path. -/
theorem sameTexts_iff_slashInQuery :
    ∃ ra ro,
      httpParseRequest ((getRequest.head.withTarget
        (slashInQuery.absoluteForm _ isScheme_http)).render ++ []) = .ok ra ∧
      httpParseRequest ((getRequest.head.withTarget slashInQuery.originForm).render ++ [])
        = .ok ro ∧
      (SameTexts ((getRequest.head.withTarget
            (slashInQuery.absoluteForm _ isScheme_http)).render ++ []) ra
          ((getRequest.head.withTarget slashInQuery.originForm).render ++ []) ro
        ↔ slashInQuery.path ≠ [] ∨ slashInQuery.query.getD [] = []) :=
  sameTexts_iff slashInQuery isScheme_http getRequest.rules (by decide) (by decide +kernel) []

/-- Of `http://a?x/y` the parser takes the path `/y` and no query. -/
theorem slashInQuery_texts :
    ∃ ra ro,
      httpParseRequest (cstr "GET http://a?x/y HTTP/1.1\r\nHost: b\r\n\r\n") = .ok ra ∧
      httpParseRequest (cstr "GET /?x/y HTTP/1.1\r\nHost: b\r\n\r\n") = .ok ro ∧
      ra.path.bytes (cstr "GET http://a?x/y HTTP/1.1\r\nHost: b\r\n\r\n") = cstr "/y" ∧
      ra.query.bytes (cstr "GET http://a?x/y HTTP/1.1\r\nHost: b\r\n\r\n") = [] ∧
      ro.path.bytes (cstr "GET /?x/y HTTP/1.1\r\nHost: b\r\n\r\n") = cstr "/" ∧
      ro.query.bytes (cstr "GET /?x/y HTTP/1.1\r\nHost: b\r\n\r\n") = cstr "x/y" ∧
      ¬ SameTexts (cstr "GET http://a?x/y HTTP/1.1\r\nHost: b\r\n\r\n") ra
        (cstr "GET /?x/y HTTP/1.1\r\nHost: b\r\n\r\n") ro :=
  ⟨_, _, rfl, rfl, by decide, by decide, by decide, by decide, fun h => absurd h.2 (by decide)⟩

end TinyServer.Http
