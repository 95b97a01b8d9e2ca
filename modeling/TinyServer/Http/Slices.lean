import TinyServer.Http.AbsoluteForm

/-!
# The slices of an accepted request

`http_request` holds 16-bit offsets and lengths, each cast from a pointer difference.
`Wide` is the parser with every cast left out: within `HTTP_PARSE_MAX_LEN` bytes no cast
loses anything, and longer buffers are cut there first (`httpParseRequest_eq_wide`). The
slices of an accepted request lie in its head (`httpParseRequest_slices`).
-/

set_option autoImplicit false

namespace TinyServer.Http

/-! ## The parser without its casts -/

namespace Wide

/-- `parse_request_target`. -/
def parseRequestTarget (off : Nat) (t : List UInt8) (req : HttpRequest) :
    Except ParseError HttpRequest :=
  match pathStart t with
  | .error e => .error e
  | .ok none => .ok { req with target := ⟨off, t.length⟩, path := ⟨0, 0⟩ }
  | .ok (some start) =>
      let path := t.drop start
      if !path.all isTargetChar then .error .bad
      else
        let req := { req with target := ⟨off, t.length⟩ }
        match memchr path QMARK with
        | some q =>
            .ok { req with
              path := ⟨off + start, q⟩
              query := ⟨off + start + (q + 1), path.length - (q + 1)⟩ }
        | none => .ok { req with path := ⟨off + start, path.length⟩ }

/-- `parse_request_line`. -/
def parseRequestLine (line : List UInt8) (req : HttpRequest) : Except ParseError HttpRequest :=
  match memchr line SP with
  | none => .error .bad
  | some sp1 =>
      if sp1 = 0 then .error .bad
      else if !(line.take sp1).all isTchar then .error .bad
      else
        let req := { req with method := parseMethod (line.take sp1) }
        let target := line.drop (sp1 + 1)
        match memchr target SP with
        | none => .error .bad
        | some sp2 =>
            if sp2 = 0 then .error .bad
            else
              match parseRequestTarget (sp1 + 1) (target.take sp2) req with
              | .error e => .error e
              | .ok req =>
                  match parseVersion (target.drop (sp2 + 1)) with
                  | .error e => .error e
                  | .ok minor => .ok { req with minorVersion := minor }

/-- `handle_header`, of which only the Host branch casts. -/
def handleHeader (name : List UInt8) (valOff : Nat) (val : List UInt8) (req : HttpRequest)
    (seen : Seen) : Except ParseError (HttpRequest × Seen) :=
  if name.length = 4 ∧ asciiIeq name (cstr "host") then
    if seen.host then .error .bad
    else if !validateHost val then .error .bad
    else .ok ({ req with host := ⟨valOff, val.length⟩ }, { seen with host := true })
  else Http.handleHeader name valOff val req seen

/-- The body of the header loop. -/
def parseHeaderLine (off : Nat) (line : List UInt8) (req : HttpRequest) (seen : Seen) :
    Except ParseError (HttpRequest × Seen) :=
  if line.head?.any isOws then .error .bad
  else
    match memchr line COLON with
    | none => .error .bad
    | some colon =>
        if colon = 0 then .error .bad
        else if !(line.take colon).all isTchar then .error .bad
        else
          let raw := line.drop (colon + 1)
          let val := trimOws raw
          if !val.all isFieldVchar then .error .bad
          else
            handleHeader (line.take colon) (off + (colon + 1) + (raw.takeWhile isOws).length)
              val req seen

/-- The header loop. -/
def parseHeaders : Nat → Nat → List UInt8 → HttpRequest → Seen →
    Except ParseError (Nat × HttpRequest × Seen)
  | 0, _, _, _, _ => .error .incomplete
  | n + 1, off, p, req, seen =>
      match findCrlf p with
      | .error e => .error e
      | .ok eol =>
          if eol = 0 then .ok (off, req, seen)
          else
            match parseHeaderLine off (p.take eol) req seen with
            | .error e => .error e
            | .ok (req, seen) => parseHeaders n (off + (eol + 2)) (p.drop (eol + 2)) req seen

/-- The end of `parse`. -/
def parseFinish (off : Nat) (req : HttpRequest) (seen : Seen) : Except ParseError HttpRequest :=
  let req := { req with
    headerBlock := { req.headerBlock with len := off - req.headerBlock.off }
    headerBytes := off + 2 }
  if req.flags.transferEncoding && req.flags.contentLength then .error .bad
  else if req.minorVersion = 1 ∧ seen.host = false then .error .bad
  else if req.flags.transferEncoding then .error .unsupported
  else .ok req

/-- `parse`, with offsets that are not cut to 16 bits. -/
def parse (buf : List UInt8) (req : HttpRequest) : Except ParseError HttpRequest :=
  match findCrlf buf with
  | .error e => .error e
  | .ok eol =>
      match parseRequestLine (buf.take eol) req with
      | .error e => .error e
      | .ok req =>
          let req := { req with headerBlock := { req.headerBlock with off := eol + 2 } }
          let rest := buf.drop (eol + 2)
          match parseHeaders (rest.length + 1) (eol + 2) rest req ⟨false, false⟩ with
          | .error e => .error e
          | .ok (off, req, seen) => parseFinish off req seen

/-- `http_parse_request`. -/
def httpParseRequest (buf : List UInt8) : Except ParseError HttpRequest :=
  if buf.length = 0 then .error .incomplete
  else if HTTP_PARSE_MAX_LEN < buf.length then
    match parse (buf.take HTTP_PARSE_MAX_LEN) .zero with
    | .error .incomplete => .error .bad
    | r => r
  else parse buf .zero

end Wide

/-! ## The casts lose nothing -/

section Casts

variable {off : Nat} {t line p : List UInt8} {req : HttpRequest} {seen : Seen}

/-- A slice that ends in the range is stored as it is. -/
theorem u16_slice {a n : Nat} (h : a + n ≤ HTTP_PARSE_MAX_LEN) : HttpSlice.mk (u16 a) (u16 n) = ⟨a, n⟩ := by
  rw [u16_of_le (by omega), u16_of_le (by omega)]

theorem pathStart_le {start : Nat} (h : pathStart t = .ok (some start)) : start ≤ t.length := by
  have hscheme : ∀ {k : Nat}, k ≤ t.length →
      (memchr (t.drop k) SLASH).map (k + ·) = some start → start ≤ t.length := by
    intro k hk hm
    obtain ⟨i, hi, rfl⟩ := Option.map_eq_some_iff.1 hm
    have hlt := memchr_lt hi
    rw [List.length_drop] at hlt
    omega
  rw [pathStart] at h
  split at h
  · cases h
    exact Nat.zero_le _
  · split at h
    · rename_i hlen
      exact hscheme hlen.1 (Except.ok.inj h)
    · split at h
      · rename_i hlen
        exact hscheme hlen.1 (Except.ok.inj h)
      · cases h

/-- No offset of a target is cut. -/
theorem parseRequestTarget_eq_wide (h : off + t.length ≤ HTTP_PARSE_MAX_LEN) :
    parseRequestTarget off t req = Wide.parseRequestTarget off t req := by
  rw [parseRequestTarget, Wide.parseRequestTarget]
  cases hp : pathStart t with
  | error e => rfl
  | ok o =>
      cases o with
      | none => simp only [u16_slice h]
      | some start =>
          have hstart := pathStart_le hp
          have hlen : (t.drop start).length = t.length - start := List.length_drop
          dsimp only
          split
          · rfl
          · cases hq : memchr (t.drop start) QMARK with
            | none =>
                dsimp only
                rw [u16_slice h, u16_slice (by omega)]
            | some q =>
                have hlt := memchr_lt hq
                dsimp only
                rw [u16_slice h, u16_slice (by omega), u16_slice (by omega)]

/-- No offset of a request line is cut. -/
theorem parseRequestLine_eq_wide (h : line.length ≤ HTTP_PARSE_MAX_LEN) :
    parseRequestLine line req = Wide.parseRequestLine line req := by
  rw [parseRequestLine, Wide.parseRequestLine]
  cases hsp : memchr line SP with
  | none => rfl
  | some sp1 =>
      have hlt := memchr_lt hsp
      have htarget : ∀ (sp2 : Nat) (r : HttpRequest),
          parseRequestTarget (sp1 + 1) ((line.drop (sp1 + 1)).take sp2) r
            = Wide.parseRequestTarget (sp1 + 1) ((line.drop (sp1 + 1)).take sp2) r := by
        intro sp2 r
        apply parseRequestTarget_eq_wide
        rw [List.length_take, List.length_drop]
        omega
      dsimp only
      cases memchr (line.drop (sp1 + 1)) SP with
      | none => rfl
      | some sp2 =>
          dsimp only
          rewrite [htarget]
          rfl

/-- No offset of a field is cut. -/
theorem handleHeader_eq_wide {name val : List UInt8} (h : off + val.length ≤ HTTP_PARSE_MAX_LEN) :
    handleHeader name off val req seen = Wide.handleHeader name off val req seen := by
  rw [Wide.handleHeader]
  split
  · rename_i hhost
    rw [handleHeader, if_pos hhost, u16_slice h]
  · rfl

/-- The trimmed value starts behind the blanks and ends in the range. -/
theorem takeWhile_add_trimOws_le (raw : List UInt8) :
    (raw.takeWhile isOws).length + (trimOws raw).length ≤ raw.length := by
  have hsplit := congrArg List.length (List.takeWhile_append_dropWhile (p := isOws) (l := raw))
  have htrim : (trimOws raw).length ≤ (raw.dropWhile isOws).length :=
    (List.rdropWhile_prefix isOws _).length_le
  rw [List.length_append] at hsplit
  omega

theorem parseHeaderLine_eq_wide (h : off + line.length ≤ HTTP_PARSE_MAX_LEN) :
    parseHeaderLine off line req seen = Wide.parseHeaderLine off line req seen := by
  rw [parseHeaderLine, Wide.parseHeaderLine]
  cases hc : memchr line COLON with
  | none => rfl
  | some colon =>
      have hlt := memchr_lt hc
      have htrim := takeWhile_add_trimOws_le (line.drop (colon + 1))
      rw [List.length_drop] at htrim
      dsimp only
      rw [handleHeader_eq_wide (by omega)]

theorem findCrlf_le {eol : Nat} (h : findCrlf p = .ok eol) : eol + 2 ≤ p.length := by
  obtain ⟨a, b, rfl, -, rfl⟩ := findCrlf_ok h
  simp

/-- By induction on the turns. -/
theorem parseHeaders_eq_wide (n : Nat) : ∀ {off : Nat} {p : List UInt8} {req : HttpRequest}
    {seen : Seen}, off + p.length ≤ HTTP_PARSE_MAX_LEN →
      parseHeaders n off p req seen = Wide.parseHeaders n off p req seen := by
  induction n with
  | zero => exact fun _ => rfl
  | succ n ih =>
      intro off p req seen h
      rw [parseHeaders, Wide.parseHeaders]
      cases hf : findCrlf p with
      | error e => rfl
      | ok eol =>
          have hle := findCrlf_le hf
          dsimp only
          rw [parseHeaderLine_eq_wide (by rw [List.length_take]; omega)]
          split
          · rfl
          · cases Wide.parseHeaderLine off (p.take eol) req seen with
            | error e => rfl
            | ok r => exact ih (by rw [List.length_drop]; omega)

/-- The empty line is in the range. -/
theorem parseHeaders_off_le (n : Nat) : ∀ {off off' : Nat} {p : List UInt8} {req req' : HttpRequest}
    {seen seen' : Seen}, Wide.parseHeaders n off p req seen = .ok (off', req', seen') →
      off' + 2 ≤ off + p.length := by
  induction n with
  | zero => exact fun h => nomatch h
  | succ n ih =>
      intro off off' p req req' seen seen' h
      rw [Wide.parseHeaders] at h
      cases hf : findCrlf p with
      | error e =>
          rw [hf] at h
          cases h
      | ok eol =>
          have hle := findCrlf_le hf
          rw [hf] at h
          dsimp only at h
          split at h
          · cases h
            omega
          · split at h
            · cases h
            · have := ih h
              rw [List.length_drop] at this
              omega

theorem parseFinish_eq_wide (h : off + 2 ≤ HTTP_PARSE_MAX_LEN) :
    parseFinish off req seen = Wide.parseFinish off req seen := by
  rw [parseFinish, Wide.parseFinish, u16_of_le h, u16_of_le (by omega)]

/-- No offset of a head is cut. -/
theorem parse_eq_wide {buf : List UInt8} (h : buf.length ≤ HTTP_PARSE_MAX_LEN) :
    parse buf req = Wide.parse buf req := by
  rw [parse, Wide.parse]
  cases hf : findCrlf buf with
  | error e => rfl
  | ok eol =>
      have hle := findCrlf_le hf
      dsimp only
      rw [parseRequestLine_eq_wide (by rw [List.length_take]; omega), u16_of_le (by omega)]
      cases Wide.parseRequestLine (buf.take eol) req with
      | error e => rfl
      | ok r =>
          have hrest : (eol + 2) + (buf.drop (eol + 2)).length ≤ HTTP_PARSE_MAX_LEN := by
            rw [List.length_drop]
            omega
          dsimp only
          rw [parseHeaders_eq_wide _ hrest]
          cases hp : Wide.parseHeaders _ _ _ _ _ with
          | error e => rfl
          | ok res => exact parseFinish_eq_wide ((parseHeaders_off_le _ hp).trans hrest)

/-- No cast of the parser changes a value, whatever the buffer and the answer. -/
theorem httpParseRequest_eq_wide (buf : List UInt8) :
    httpParseRequest buf = Wide.httpParseRequest buf := by
  rw [httpParseRequest, Wide.httpParseRequest, parse_eq_wide (List.length_take_le _ _)]
  split
  · rfl
  · split
    · rfl
    · rename_i hle
      exact parse_eq_wide (Nat.not_lt.1 hle)

end Casts

/-! ## Where the slices lie -/

/-- The slice lies in the range. -/
def HttpSlice.In (s : HttpSlice) (lo hi : Nat) : Prop := lo ≤ s.off ∧ s.off + s.len ≤ hi

/-- A slice that is not stored, or that lies in another one. -/
def HttpSlice.Within (s t : HttpSlice) : Prop := s = ⟨0, 0⟩ ∨ s.In t.off (t.off + t.len)

/-- What the later code may rely on when it indexes the buffer by the slices. -/
structure SlicesOk (buf : List UInt8) (req : HttpRequest) : Prop where
  wide : Wide.httpParseRequest buf = .ok req
  bytes_le : req.headerBytes ≤ buf.length
  target_in : req.target.In 0 req.headerBytes
  host_in : req.host.In 0 req.headerBytes
  block_in : req.headerBlock.In 0 req.headerBytes
  path_in : req.path.Within req.target
  query_in : req.query.Within req.target
  query_mark : req.query = ⟨0, 0⟩ ∧ QMARK ∉ req.path.bytes buf ∨
    buf[req.path.off + req.path.len]? = some QMARK ∧ QMARK ∉ req.path.bytes buf ∧
      req.query.off = req.path.off + req.path.len + 1
  block_end : req.headerBlock.off + req.headerBlock.len + 2 = req.headerBytes
  path_empty : req.path.len = 0 → ∃ scheme authority, isScheme scheme ∧ SLASH ∉ authority ∧
    req.target.bytes buf = scheme ++ authority

/-- The value of a header line ends before the head does. -/
theorem Head.value_in {hd : Head} {pre post : List HeaderField} {f : HeaderField} (hf : hd.fields = pre ++ f :: post) :
    f.valueOff (hd.blockOff + (renderFields pre).length) + f.value.length + 4 ≤ hd.render.length := by
  have htrim := takeWhile_add_trimOws_le f.raw
  have hline : f.line.length = f.name.length + (f.raw.length + 1) := by
    rw [HeaderField.line, List.length_append, List.length_cons]
  have hfs : (renderFields hd.fields).length
      = (renderFields pre).length + (f.render.length + (renderFields post).length) := by
    rw [hf, renderFields, List.flatMap_append, List.length_append]
    exact congrArg _ List.length_append
  rw [f.trimOws_raw] at htrim
  rw [hd.render_length, hfs, f.render_length, HeaderField.valueOff]
  omega

namespace AcceptedHead

variable {buf : List UInt8} {req : HttpRequest} {hd : Head} (h : AcceptedHead buf req hd)

include h

/-- The header block is between the request line and the empty line. -/
theorem headerBlock_eq : req.headerBlock = ⟨hd.blockOff, (renderFields hd.fields).length⟩ := by
  obtain ⟨r, seen, -, rfl⟩ := h.result
  have hlen := hd.render_length
  have hshort := h.short
  dsimp only
  rw [u16_of_le (by omega), Nat.add_sub_cancel_left, u16_of_le (by omega)]

/-- The host lies in the head. -/
theorem host_in : req.host.In 0 req.headerBytes := by
  rw [h.headerBytes_eq]
  refine ⟨Nat.zero_le _, ?_⟩
  obtain ⟨r, seen, hf, rfl⟩ := h.result
  show r.host.off + r.host.len ≤ _
  by_cases hc : countKind .host hd.fields = 0
  · rw [hf.host_absent hc, lineRequest_host]
    exact Nat.zero_le _
  · obtain ⟨f, hmem, hk⟩ := countKind_pos.1 (Nat.pos_of_ne_zero hc)
    obtain ⟨pre, post, hsplit⟩ := List.append_of_mem hmem
    have hin := Head.value_in hsplit
    have hshort := h.short
    rw [hf.host_value pre f post hsplit hk, u16_slice (by omega)]
    exact (Nat.le_add_right _ 4).trans hin

/-- The target follows the method and a space. -/
theorem target_eq : req.target = ⟨hd.method.length + 1, hd.target.bytes.length⟩ := by
  have hle : hd.method.length + 1 + hd.target.bytes.length ≤ HTTP_PARSE_MAX_LEN := by
    have hshort := h.short
    rw [hd.render_length, Head.blockOff, Head.requestLine, List.length_append, List.length_cons,
      List.length_append] at hshort
    omega
  obtain ⟨r, seen, hf, rfl⟩ := h.result
  refine hf.same.1.trans ?_
  rw [Head.lineRequest, lineSlices, targetSlices, ← u16_slice hle]
  cases hd.target.pathIndex with
  | none => rfl
  | some start => cases memchr hd.target.path QMARK <;> rfl

/-- The path and the query, cut at the first question mark of the path. -/
theorem path_query : (hd.target.pathIndex = none ∧ req.path = ⟨0, 0⟩ ∧ req.query = ⟨0, 0⟩) ∨
    ∃ start, hd.target.pathIndex = some start ∧ req.path.off = hd.method.length + 1 + start ∧
      (QMARK ∉ hd.target.path ∧ req.path.len = hd.target.path.length ∧ req.query = ⟨0, 0⟩ ∨
        ∃ p r, hd.target.path = p ++ QMARK :: r ∧ QMARK ∉ p ∧ req.path.len = p.length ∧
          req.query = ⟨hd.method.length + 1 + start + (p.length + 1), r.length⟩) := by
  obtain ⟨-, -, hpath, hquery⟩ := line_same h
  rw [hpath, hquery, Head.lineRequest, lineSlices, targetSlices]
  cases hi : hd.target.pathIndex with
  | none => exact .inl ⟨rfl, rfl, rfl⟩
  | some start =>
      have hlen := congrArg List.length (hd.target.drop_pathIndex hi)
      have hle := hd.target.pathIndex_le hi
      have hshort := h.short
      rw [hd.render_length, Head.blockOff, Head.requestLine, List.length_append, List.length_cons,
        List.length_append] at hshort
      rw [List.length_drop] at hlen
      refine .inr ⟨start, rfl, ?_⟩
      cases hq : memchr hd.target.path QMARK with
      | none =>
          dsimp only
          rw [u16_of_le (by omega), u16_of_le (by omega)]
          exact ⟨rfl, .inl ⟨memchr_eq_none.1 hq, rfl, rfl⟩⟩
      | some q =>
          obtain ⟨p, r, hsplit, hno, rfl⟩ := memchr_eq_some hq
          have hrest : hd.target.path.length - (p.length + 1) = r.length := by
            rw [hsplit, List.length_append, List.length_cons]
            omega
          have hlt := memchr_lt hq
          dsimp only
          rw [u16_of_le (by omega), u16_of_le (by omega), u16_slice (by omega), hrest]
          exact ⟨rfl, .inr ⟨p, r, hsplit, hno, rfl, rfl⟩⟩

/-- A head with a path, around that path. -/
theorem starts_path {start : Nat} (hi : hd.target.pathIndex = some start) : ∃ pre post,
    buf = pre ++ (hd.target.path ++ post) ∧ pre.length = hd.method.length + 1 + start := by
  obtain ⟨tail, rfl⟩ := h.starts
  refine ⟨hd.method ++ SP :: hd.target.bytes.take start, SP :: (Head.version hd.minor ++
    (CRLF ++ (renderFields hd.fields ++ (CRLF ++ tail)))), ?_, ?_⟩
  · rw [hd.render_append, Head.requestLine, ← hd.target.drop_pathIndex hi]
    conv_lhs => rw [← List.take_append_drop start hd.target.bytes]
    simp only [List.append_assoc, List.cons_append]
  · have := hd.target.pathIndex_le hi
    rw [List.length_append, List.length_cons, List.length_take]
    omega

end AcceptedHead

/-- A target without a path is a scheme and an authority. -/
theorem Target.of_no_path {t : Target} (h : t.pathIndex = none) :
    ∃ scheme authority, isScheme scheme ∧ SLASH ∉ authority ∧ t.bytes = scheme ++ authority := by
  have hpath := Target.pathIndex_eq_none h
  cases t with
  | origin path _ _ => cases h
  | absolute s a p hs ha _ _ =>
      obtain rfl : p = [] := hpath
      exact ⟨s, a, hs, fun hm => (ha _ hm).1 rfl, List.append_nil _⟩

theorem Target.path_slash {t : Target} {start : Nat} (h : t.pathIndex = some start) :
    t.path.head? = some SLASH := by
  cases t with
  | origin path hs _ => exact hs
  | absolute s a p _ _ hp _ =>
      refine hp.resolve_left fun hnil => ?_
      rw [pathIndex, if_pos hnil] at h
      cases h

/-- The slices of an accepted request are the pointer differences themselves, and lie in the
head where the later code looks for them. -/
theorem httpParseRequest_slices {buf : List UInt8} {req : HttpRequest}
    (h : httpParseRequest buf = .ok req) : SlicesOk buf req := by
  obtain ⟨hd, ha⟩ := exists_head_of_accept h
  have hline : hd.requestLine.length
      = hd.method.length + (hd.target.bytes.length + 1 + (Head.version hd.minor).length + 1) := by
    rw [Head.requestLine, List.length_append, List.length_cons, List.length_append, List.length_cons]
    omega
  have hrender := hd.render_length
  have hoff : hd.blockOff = hd.requestLine.length + 2 := rfl
  have htarget := ha.target_eq
  have hblock := ha.headerBlock_eq
  have hbytes := ha.headerBytes_eq
  -- The path is the text before the first question mark.
  have hno : QMARK ∉ req.path.bytes buf := by
    obtain ⟨tail, rfl⟩ := ha.starts
    rw [(ha.result.texts ha.short tail).1, Target.pathText]
    intro hm
    have hne : (QMARK != QMARK) = true := List.mem_takeWhile_imp (p := (· != QMARK)) hm
    exact bne_iff_ne.1 hne rfl
  have hquery := ha.path_query
  constructor
  case wide => exact httpParseRequest_eq_wide buf ▸ h
  case bytes_le => exact ha.headerBytes_le
  case target_in =>
      rw [htarget, hbytes]
      exact ⟨Nat.zero_le _, by dsimp only; omega⟩
  case host_in => exact ha.host_in
  case block_in =>
      rw [hblock, hbytes]
      exact ⟨Nat.zero_le _, by dsimp only; omega⟩
  case block_end =>
      rw [hblock, hbytes]
      exact hrender.symm
  case path_in =>
      -- The path starts at the first slash, and ends at the question mark or with the target.
      rcases hquery with ⟨-, hp, -⟩ | ⟨start, hi, hstart, hcut⟩
      · exact .inl hp
      · have hlen := congrArg List.length (hd.target.drop_pathIndex hi)
        have hle := hd.target.pathIndex_le hi
        rw [List.length_drop] at hlen
        refine .inr ?_
        rw [HttpSlice.In, htarget, hstart]
        rcases hcut with ⟨-, hlen', -⟩ | ⟨p, r, hsplit, -, hlen', -⟩
        · rw [hlen']
          dsimp only
          omega
        · rw [hsplit, List.length_append, List.length_cons] at hlen
          rw [hlen']
          dsimp only
          omega
  case query_in =>
      rcases hquery with ⟨-, -, hq⟩ | ⟨start, hi, -, ⟨-, -, hq⟩ | ⟨p, r, hsplit, -, -, hq⟩⟩
      · exact .inl hq
      · exact .inl hq
      · have hlen := congrArg List.length (hd.target.drop_pathIndex hi)
        have hle := hd.target.pathIndex_le hi
        rw [List.length_drop, hsplit, List.length_append, List.length_cons] at hlen
        refine .inr ?_
        rw [HttpSlice.In, htarget, hq]
        dsimp only
        omega
  case query_mark =>
      rcases hquery with ⟨-, -, hq⟩ | ⟨start, hi, hstart, ⟨-, -, hq⟩ | ⟨p, r, hsplit, -, hlen, hq⟩⟩
      · exact .inl ⟨hq, hno⟩
      · exact .inl ⟨hq, hno⟩
      · refine .inr ⟨?_, hno, ?_⟩
        · obtain ⟨pre, post, hbuf, hpre⟩ := ha.starts_path hi
          have hat : buf = (pre ++ p) ++ QMARK :: (r ++ post) := by
            rw [hbuf, hsplit]
            simp only [List.append_assoc, List.cons_append]
          have hindex : req.path.off + req.path.len = (pre ++ p).length := by
            rw [hstart, hlen, List.length_append, hpre]
          rw [hindex, hat, List.getElem?_append_right le_rfl, Nat.sub_self]
          rfl
        · rw [hq, hstart, hlen]
          rfl
  case path_empty =>
      intro hzero
      rw [target_bytes ha]
      rcases hquery with ⟨hi, -, -⟩ | ⟨start, hi, -, hcut⟩
      · exact Target.of_no_path hi
      · -- A path starts with a slash, so that it does not end before its first byte.
        exfalso
        have hslash := Target.path_slash hi
        rcases hcut with ⟨-, hlen, -⟩ | ⟨p, r, hsplit, -, hlen, -⟩
        · rw [List.length_eq_zero_iff.1 (hlen.symm.trans hzero)] at hslash
          cases hslash
        · rw [hsplit, List.length_eq_zero_iff.1 (hlen.symm.trans hzero)] at hslash
          have hne : QMARK ≠ SLASH := by decide
          exact hne (Option.some.inj hslash)

/-- A request line with a query, and one Host line. -/
theorem httpParseRequest_slices_query :
    ∃ req, httpParseRequest (cstr "GET /a?b HTTP/1.1\r\nHost: x\r\n\r\n") = .ok req ∧
      SlicesOk (cstr "GET /a?b HTTP/1.1\r\nHost: x\r\n\r\n") req := by
  have hok : httpParseRequest (cstr "GET /a?b HTTP/1.1\r\nHost: x\r\n\r\n")
      = .ok ⟨⟨4, 4⟩, ⟨4, 2⟩, ⟨7, 1⟩, ⟨25, 1⟩, ⟨19, 9⟩, 0, 30, .get, 1,
        ⟨false, false, false, false⟩⟩ := by
    decide
  exact ⟨_, hok, httpParseRequest_slices hok⟩

end TinyServer.Http
