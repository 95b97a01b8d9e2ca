import TinyServer.Http.ParserExact

/-!
# Verdicts and the way the stream is cut

The connection calls `http_parse_request` on each growing prefix of the stream
until it answers something other than `HTTP_PARSE_INCOMPLETE`. `findCrlf` judges
a line before its CR has arrived, since a bare LF is bad at once. Every scanner
agrees with that early verdict except `parse_request_target`, which does not look
at the authority of an absolute-form target. `sameVerdict_iff` is the exact
condition under which the verdict does not depend on the cuts.
-/

set_option autoImplicit false

namespace TinyServer.Http

open TinyServer.Lib

/-! ## One line -/

/-- A line end that was found stays where it is when more bytes come. -/
theorem findCrlf_ok_append {p : List UInt8} {i : Nat} (h : findCrlf p = .ok i) (s : List UInt8) :
    findCrlf (p ++ s) = .ok i := by
  obtain ⟨a, b, rfl, ha, rfl⟩ := findCrlf_ok h
  rw [List.append_assoc, List.append_assoc]
  exact findCrlf_append ha

/-- A line feed without a carriage return before it is refused. -/
theorem findCrlf_of_lf {p : List UInt8} (hcr : CR ∉ p) (hlf : LF ∈ p) :
    findCrlf p = .error .bad := by
  have h1 : memchr p CR = none := memchr_eq_none.2 hcr
  have h2 : (memchr p LF).isSome = true := by
    cases hm : memchr p LF with
    | none => exact absurd hlf (memchr_eq_none.1 hm)
    | some i => rfl
  simp only [findCrlf, h1, h2, if_true]

/-- When more bytes follow a range found bad, the longer range is bad or
incomplete, or its first line holds a bare LF. -/
theorem findCrlf_bad_append {p : List UInt8} (h : findCrlf p = .error .bad) (s : List UInt8) :
    findCrlf (p ++ s) = .error .bad ∨ findCrlf (p ++ s) = .error .incomplete ∨
      ∃ i, findCrlf (p ++ s) = .ok i ∧ LF ∈ (p ++ s).take i := by
  unfold findCrlf at h
  cases hm : memchr p CR with
  -- A bare LF was found and no CR, so the line that ends later holds the LF.
  | none =>
      rw [hm] at h
      simp only at h
      split at h
      · rename_i hlf
        have hcr : CR ∉ p := memchr_eq_none.1 hm
        have hlf' : LF ∈ p := by
          by_contra hn
          rw [memchr_eq_none.2 hn] at hlf
          cases hlf
        cases hr : findCrlf (p ++ s) with
        | error e =>
            cases e with
            | bad => exact Or.inl rfl
            | incomplete => exact Or.inr (Or.inl rfl)
            | unsupported => exact absurd hr (findCrlf_ne_unsupported _)
        | ok i =>
            refine Or.inr (Or.inr ⟨i, rfl, ?_⟩)
            obtain ⟨a, b, hab, -, rfl⟩ := findCrlf_ok hr
            rw [hab, List.take_left]
            -- The line ends after `p`, since `p` holds no CR.
            rcases List.append_eq_append_iff.1 hab with ⟨c, rfl, -⟩ | ⟨c, hp, hc⟩
            · simp [hlf']
            · cases c with
              | nil => simpa [hp] using hlf'
              | cons x c =>
                  have : x = CR := (List.cons.inj hc).1.symm
                  rw [hp, this] at hcr
                  exact absurd (by simp) hcr
      · cases h
  -- A CR without its LF stays where it is.
  | some cr =>
      obtain ⟨a, b, rfl, ha, rfl⟩ := memchr_eq_some hm
      rw [hm] at h
      simp only at h
      split at h
      · cases h
      split at h
      · rename_i hlen hget
        rw [List.getElem?_append_right (by omega)] at hget
        cases b with
        | nil => simp at hlen
        | cons x b =>
            have hx : x ≠ LF := by
              intro e
              apply hget
              simp [e]
            have hm' : memchr (a ++ CR :: x :: b ++ s) CR = some a.length := by
              rw [List.append_assoc]
              exact memchr_append_cons ha
            left
            unfold findCrlf
            rw [hm']
            have hlen' : a.length + 1 ≠ (a ++ CR :: x :: b ++ s).length := by
              simp
            have hget' : (a ++ CR :: x :: b ++ s)[a.length + 1]? ≠ some LF := by
              rw [List.append_assoc, List.getElem?_append_right (by omega)]
              simpa using hx
            simp only [hlen', if_false, if_pos hget']
      · cases h

/-! ## The header block -/

/-- A verdict on the header fields stands when more bytes come. -/
theorem parseHeaders_append (n : Nat) : ∀ {m off : Nat} {p s : List UInt8} {req : HttpRequest}
    {seen : Seen}, p.length < n → (p ++ s).length < m →
      parseHeaders n off p req seen ≠ .error .incomplete →
        parseHeaders m off (p ++ s) req seen ≠ .error .incomplete →
          parseHeaders n off p req seen = parseHeaders m off (p ++ s) req seen := by
  induction n with
  | zero => exact fun hp => absurd hp (Nat.not_lt_zero _)
  | succ n ih =>
      intro m off p s req seen hp hm h1 h2
      obtain ⟨m, rfl⟩ : ∃ k, m = k + 1 := ⟨m - 1, by omega⟩
      rw [parseHeaders] at h1 h2 ⊢
      rw [parseHeaders]
      cases hf : findCrlf p with
      | error e =>
          rw [hf] at h1
          cases e with
          | incomplete => exact absurd rfl h1
          | unsupported => exact absurd hf (findCrlf_ne_unsupported p)
          | bad =>
              rcases findCrlf_bad_append hf s with hb | hb | ⟨i, hi, hlf⟩
              · rw [hb]
              · rw [hb] at h2
                exact absurd rfl h2
              · have hne : i ≠ 0 := by
                  rintro rfl
                  simp at hlf
                simp only [hi, if_neg hne, parseHeaderLine_of_lf_mem hlf]
      | ok i =>
          have hi := findCrlf_ok_append hf s
          rw [hf] at h1
          rw [hi] at h2 ⊢
          obtain ⟨a, b, rfl, -, rfl⟩ := findCrlf_ok hf
          have htake : (a ++ (CRLF ++ b) ++ s).take a.length = a := by
            rw [List.append_assoc, List.take_left]
          have hdrop : (a ++ (CRLF ++ b)).drop (a.length + 2) = b := by
            rw [← List.append_assoc]
            exact List.drop_left' (by simp)
          have hdrop' : (a ++ (CRLF ++ b) ++ s).drop (a.length + 2) = b ++ s := by
            rw [List.append_assoc, List.append_assoc, ← List.append_assoc a]
            exact List.drop_left' (by simp)
          simp only [List.take_left, hdrop] at h1
          simp only [htake, hdrop'] at h2
          simp only [List.take_left, hdrop, htake, hdrop']
          by_cases hz : a.length = 0
          · simp only [hz, if_true]
          · simp only [hz, if_false] at h1 h2 ⊢
            cases hl : parseHeaderLine off a req seen with
            | error e => rfl
            | ok r =>
                simp only [hl] at h1 h2
                simp only
                have hlen : (a ++ (CRLF ++ b)).length = a.length + 2 + b.length := by
                  simp; omega
                refine ih (by omega) ?_ h1 h2
                rw [List.length_append, hlen] at hm
                rw [List.length_append]
                omega

/-! ## The whole head -/

/-- An LF the request line of a head can hold sits in the authority. -/
theorem lf_mem_authority {h : Head} (hlf : LF ∈ h.requestLine) : LF ∈ h.target.authority := by
  have h1 := not_mem_of_all_isTchar h.method_tchar (d := LF) (by decide)
  have h2 : LF ∉ Head.version h.minor := by
    match h.minor with
    | 0 => decide
    | 1 => decide
  have h3 : LF ≠ SP := by decide
  have h4 : LF ∉ h.target.path := fun hm =>
    absurd (List.all_eq_true.1 h.target.path_chars _ hm) (by decide)
  simp only [Head.requestLine, List.mem_append, List.mem_cons, h1, h2, h3, false_or,
    or_false] at hlf
  cases ht : h.target with
  | origin path _ _ =>
      rw [ht] at hlf h4
      exact absurd hlf h4
  | absolute s a p hs _ _ _ =>
      rw [ht] at hlf h4
      have h5 : LF ∉ s := by
        intro hm
        have hm' : asciiLower LF ∈ s.map asciiLower := List.mem_map_of_mem hm
        rcases hs with h | h <;> rw [h] at hm' <;> exact absurd hm' (by decide)
      simp only [Target.path] at h4
      simpa [Target.bytes, Target.authority, h4, h5] using hlf

/-- A complete head inside the parser's limit whose authority holds a bare LF. -/
structure BareLfHead (h : Head) : Prop where
  rules : h.Rules
  lf : LF ∈ h.target.authority
  short : h.render.length ≤ HTTP_PARSE_MAX_LEN

/-- Two verdicts on a range and a longer one agree unless the longer one starts
with a head whose authority holds a bare LF. -/
theorem parse_append {p s : List UInt8} (h1 : parse p .zero ≠ .error .incomplete)
    (h2 : parse (p ++ s) .zero ≠ .error .incomplete)
    (hno : ∀ h : Head, h.Rules → LF ∈ h.target.authority → ¬ h.render <+: p ++ s) :
    parse p .zero = parse (p ++ s) .zero := by
  cases hf : findCrlf p with
  | error e =>
      cases e with
      | incomplete =>
          unfold parse at h1
          rw [hf] at h1
          exact absurd rfl h1
      | unsupported => exact absurd hf (findCrlf_ne_unsupported p)
      | bad =>
          have hp : parse p .zero = .error .bad := by
            unfold parse
            rw [hf]
          rw [hp]
          by_contra hne
          obtain ⟨hd, tail, -, hbuf, hr⟩ := exists_head_of_parse rfl (fun e => hne e.symm) h2
          rcases findCrlf_bad_append hf s with hb | hb | ⟨i, hi, hlf⟩
          · unfold parse at hne
            rw [hb] at hne
            exact hne rfl
          · unfold parse at h2
            rw [hb] at h2
            exact h2 rfl
          · have hi' := hi
            rw [hbuf, hd.render_append, findCrlf_append hd.cr_not_mem_requestLine] at hi'
            cases hi'
            rw [hbuf, hd.render_append, List.take_left] at hlf
            exact hno hd hr (lf_mem_authority hlf) (hbuf ▸ List.prefix_append _ _)
  | ok i =>
      have hi := findCrlf_ok_append hf s
      obtain ⟨a, b, rfl, -, rfl⟩ := findCrlf_ok hf
      have htake : (a ++ (CRLF ++ b) ++ s).take a.length = a := by
        rw [List.append_assoc, List.take_left]
      have hdrop : (a ++ (CRLF ++ b)).drop (a.length + 2) = b := by
        rw [← List.append_assoc]
        exact List.drop_left' (by simp)
      have hdrop' : (a ++ (CRLF ++ b) ++ s).drop (a.length + 2) = b ++ s := by
        rw [List.append_assoc, List.append_assoc, ← List.append_assoc a]
        exact List.drop_left' (by simp)
      unfold parse at h1 h2 ⊢
      simp only [hf, List.take_left, hdrop] at h1
      simp only [hi, htake, hdrop'] at h2
      simp only [hf, hi, List.take_left, htake, hdrop, hdrop']
      cases hl : parseRequestLine a .zero with
      | error e => rfl
      | ok req =>
          simp only [hl] at h1 h2
          simp only
          rw [parseHeaders_append (b.length + 1) (Nat.lt_succ_self _) (Nat.lt_succ_self _)
            (fun hr => h1 (by rw [hr])) (fun hr => h2 (by rw [hr]))]

/-! ## The verdict of a cut -/

/-- A verdict other than BAD and INCOMPLETE stays when more bytes follow. -/
theorem parse_append_of_head {p : List UInt8} (hbad : parse p .zero ≠ .error .bad)
    (hinc : parse p .zero ≠ .error .incomplete) (s : List UInt8) :
    parse (p ++ s) .zero = parse p .zero := by
  obtain ⟨hd, tail, -, rfl, hr⟩ := exists_head_of_parse rfl hbad hinc
  rw [List.append_assoc, parse_render, parse_render]

/-- Two verdicts on prefixes of one stream agree unless the stream starts with a
head whose authority holds a bare LF. -/
theorem httpParseRequest_append {p s : List UInt8} (h1 : httpParseRequest p ≠ .error .incomplete)
    (h2 : httpParseRequest (p ++ s) ≠ .error .incomplete)
    (hno : ∀ h : Head, BareLfHead h → ¬ h.render <+: p ++ s) :
    httpParseRequest p = httpParseRequest (p ++ s) := by
  by_cases hp : p.length ≤ HTTP_PARSE_MAX_LEN
  · by_cases hs : (p ++ s).length ≤ HTTP_PARSE_MAX_LEN
    · rw [httpParseRequest_of_le hp] at h1 ⊢
      rw [httpParseRequest_of_le hs] at h2 ⊢
      exact parse_append h1 h2 fun h hr hlf hpre =>
        hno h ⟨hr, hlf, hpre.length_le.trans hs⟩ hpre
    · have hlt : HTTP_PARSE_MAX_LEN < (p ++ s).length := by omega
      obtain ⟨s', hs'⟩ : ∃ s', (p ++ s).take HTTP_PARSE_MAX_LEN = p ++ s' :=
        ⟨s.take (HTTP_PARSE_MAX_LEN - p.length), by
          rw [List.take_append, List.take_of_length_le hp]⟩
      have hlen : (p ++ s').length ≤ HTTP_PARSE_MAX_LEN := by
        rw [← hs']
        exact List.length_take_le _ _
      have hpre : p ++ s' <+: p ++ s := hs' ▸ List.take_prefix _ _
      rw [httpParseRequest_of_le hp] at h1 ⊢
      rw [httpParseRequest_of_lt hlt, hs']
      by_cases hi : parse (p ++ s') .zero = .error .incomplete
      · -- The capped call turns INCOMPLETE into BAD; the short one was BAD before.
        rw [hi]
        by_contra hne
        rw [parse_append_of_head hne h1 s'] at hi
        exact h1 hi
      · rw [parse_append h1 hi fun h hr hlf hpre' =>
          hno h ⟨hr, hlf, hpre'.length_le.trans hlen⟩ (hpre'.trans hpre)]
        cases hr : parse (p ++ s') .zero with
        | ok r => rfl
        | error e =>
            cases e with
            | incomplete => exact absurd hr hi
            | bad => rfl
            | unsupported => rfl
  · have hlt : HTTP_PARSE_MAX_LEN < p.length := by omega
    have hlt' : HTTP_PARSE_MAX_LEN < (p ++ s).length := by
      rw [List.length_append]
      omega
    rw [httpParseRequest_of_lt hlt, httpParseRequest_of_lt hlt',
      List.take_append_of_le_length (by omega)]

/-- The answers of `http_parse_request` on the growing buffer, read by read, up
to the first one other than INCOMPLETE. -/
def firstVerdict : List (List UInt8) → List UInt8 → Except ParseError HttpRequest
  | [], _ => .error .incomplete
  | read :: reads, buf =>
      match httpParseRequest (buf ++ read) with
      | .error .incomplete => firstVerdict reads (buf ++ read)
      | verdict => verdict

/-- Any two ways of cutting the stream into reads that both reach a verdict reach
the same one. -/
def SameVerdict (stream : List UInt8) : Prop :=
  ∀ reads reads' : List (List UInt8), reads.flatten = stream → reads'.flatten = stream →
    firstVerdict reads [] ≠ .error .incomplete → firstVerdict reads' [] ≠ .error .incomplete →
      firstVerdict reads [] = firstVerdict reads' []

/-- The verdict of a cut is the verdict on one prefix of the stream. -/
theorem exists_prefix_of_firstVerdict (reads : List (List UInt8)) : ∀ buf : List UInt8,
    firstVerdict reads buf ≠ .error .incomplete →
      ∃ p, p <+: buf ++ reads.flatten ∧ httpParseRequest p = firstVerdict reads buf := by
  induction reads with
  | nil => exact fun _ h => absurd rfl h
  | cons read reads ih =>
      intro buf h
      rw [firstVerdict] at h ⊢
      rw [List.flatten_cons, ← List.append_assoc]
      split at h
      · obtain ⟨p, hp, he⟩ := ih _ h
        exact ⟨p, hp, he⟩
      · exact ⟨buf ++ read, List.prefix_append _ _, rfl⟩

/-- A verdict on the first read is the one that counts. -/
theorem firstVerdict_cons {read : List UInt8} (h : httpParseRequest read ≠ .error .incomplete)
    (reads : List (List UInt8)) : firstVerdict (read :: reads) [] = httpParseRequest read := by
  rw [firstVerdict, List.nil_append]
  split
  · rename_i he
    exact absurd he h
  · rfl

/-- The verdict is independent of the cuts exactly when the stream does not start
with a head, complete within 65535 bytes, whose authority holds a bare LF. -/
theorem sameVerdict_iff (stream : List UInt8) :
    SameVerdict stream ↔ ¬ ∃ h : Head, BareLfHead h ∧ h.render <+: stream := by
  constructor
  -- The head as one read is accepted or unsupported, and cut at the bare LF it is bad.
  · rintro hsame ⟨h, hb, rest, rfl⟩
    obtain ⟨l, r, hlr⟩ := List.append_of_mem hb.lf
    have hmem : LF ∈ h.requestLine := by
      cases ht : h.target with
      | origin path _ _ =>
          have := hb.lf
          rw [ht] at this
          cases this
      | absolute s a p _ _ _ _ =>
          have := hb.lf
          rw [ht] at this
          simp only [Target.authority] at this
          simp [Head.requestLine, ht, Target.bytes, this]
    -- Cut after the first LF of the request line, and after the whole head.
    obtain ⟨pre, post, hline⟩ := List.append_of_mem hmem
    have hrender : h.render = (pre ++ [LF]) ++
        (post ++ (CRLF ++ (renderFields h.fields ++ CRLF))) := by
      have := h.render_append []
      rw [List.append_nil, hline] at this
      rw [this]
      simp
    have hcr : CR ∉ pre ++ [LF] := by
      have := h.cr_not_mem_requestLine
      rw [hline] at this
      simp only [List.mem_append, List.mem_cons, not_or] at this
      have hne : CR ≠ LF := by decide
      simp [this.1, hne]
    have hlen : (pre ++ [LF]).length ≤ HTTP_PARSE_MAX_LEN := by
      have := hb.short
      rw [hrender, List.length_append] at this
      omega
    have hv1 : httpParseRequest (pre ++ [LF]) = .error .bad := by
      rw [httpParseRequest_of_le hlen]
      unfold parse
      rw [findCrlf_of_lf hcr (by simp)]
    have hv2 : httpParseRequest h.render ≠ .error .bad ∧
        httpParseRequest h.render ≠ .error .incomplete := by
      rw [httpParseRequest_of_le hb.short, ← List.append_nil h.render]
      rcases Nat.eq_zero_or_pos (h.count .transferEncoding) with ht | ht
      · obtain ⟨req, hreq, -⟩ := parse_render_ok hb.rules ht []
        rw [hreq]
        exact ⟨by rintro ⟨⟩, by rintro ⟨⟩⟩
      · rw [parse_render_unsupported hb.rules ht []]
        exact ⟨by rintro ⟨⟩, by rintro ⟨⟩⟩
    have hne : httpParseRequest (pre ++ [LF]) ≠ .error .incomplete := by
      rw [hv1]
      rintro ⟨⟩
    have hc1 := firstVerdict_cons hne
      [post ++ (CRLF ++ (renderFields h.fields ++ CRLF)) ++ rest]
    have hc2 := firstVerdict_cons hv2.2 [rest]
    have := hsame [pre ++ [LF], post ++ (CRLF ++ (renderFields h.fields ++ CRLF)) ++ rest]
      [h.render, rest] (by rw [hrender]; simp) (by simp) (by rw [hc1, hv1]; rintro ⟨⟩)
      (by rw [hc2]; exact hv2.2)
    rw [hc1, hc2, hv1] at this
    exact hv2.1 this.symm
  -- Without such a head, one of the two prefixes that decide is a prefix of the other.
  · intro hno reads reads' hr hr' h1 h2
    obtain ⟨p, hp, hpe⟩ := exists_prefix_of_firstVerdict reads [] h1
    obtain ⟨q, hq, hqe⟩ := exists_prefix_of_firstVerdict reads' [] h2
    rw [List.nil_append, hr] at hp
    rw [List.nil_append, hr'] at hq
    rw [← hpe] at h1 ⊢
    rw [← hqe] at h2 ⊢
    have hno' : ∀ {u : List UInt8}, u <+: stream → ∀ h : Head, BareLfHead h → ¬ h.render <+: u :=
      fun hu h hb hpre => hno ⟨h, hb, hpre.trans hu⟩
    rcases List.prefix_or_prefix_of_prefix hp hq with ⟨s, rfl⟩ | ⟨s, rfl⟩
    · exact httpParseRequest_append h1 h2 (hno' hq)
    · exact (httpParseRequest_append h2 h1 (hno' hp)).symm

/-- A stream whose verdict depends on the cuts: an LF in the authority of an
absolute-form target. -/
theorem not_forall_sameVerdict : ¬ ∀ stream, SameVerdict stream := by
  intro h
  have := h _ [cstr "GET http://a\n", cstr "b/ HTTP/1.1\r\nHost: x\r\n\r\n"]
    [cstr "GET http://a\nb/ HTTP/1.1\r\nHost: x\r\n\r\n"] rfl (by decide) (by decide) (by decide)
  revert this
  decide

end TinyServer.Http
