import TinyServer.Http.ParserExact

/-!
# Decoding a rendered request

An `AbstractRequest` is a request said without any offset: a method, a path, an
optional query, a minor version and header lines, with the rules between them as
fields. `http_parse_request` on its rendering, whatever follows, accepts exactly
the rendering, and every slice and flag it stores denotes the rendered part
(`httpParseRequest_render`).

`isHost` and `decimal` say what a Host value and a Content-Length value are
without the scanners; `validateHost_iff` and `parseContentLength_iff` connect
them to the code.
-/

set_option autoImplicit false

namespace TinyServer.Http

open TinyServer.Lib

/-! ## Content-Length values -/

/-- The number that decimal digits write, continuing from `v`. -/
def decimalFrom (v : Nat) (p : List UInt8) : Nat :=
  p.foldl (fun v c => v * 10 + (c.toNat - 0x30)) v

/-- The value of a decimal numeral, without a bound. -/
def decimal (p : List UInt8) : Nat := decimalFrom 0 p

/-- Digits do not make a value smaller. -/
theorem le_decimalFrom (p : List UInt8) : ∀ v, v ≤ decimalFrom v p := by
  induction p with
  | nil => exact fun v => le_rfl
  | cons c p ih =>
      intro v
      exact le_trans (by omega) (ih (v * 10 + (c.toNat - 0x30)))

theorem isDigit_iff {c : UInt8} : isDigit c = true ↔ ¬ (c < 0x30 ∨ 0x39 < c) := by
  simp [isDigit, not_or, UInt8.not_lt]

/-- The loop over the digits gives the value of the numeral, unless it is too large. -/
theorem decimalDigits_iff {max : Nat} (hmax : 9 ≤ max) (p : List UInt8) : ∀ v n : Nat, v ≤ max →
    (decimalDigits max p v = some n ↔
      p.all isDigit = true ∧ decimalFrom v p ≤ max ∧ n = decimalFrom v p) := by
  induction p with
  | nil =>
      intro v n hv
      simp [decimalDigits, decimalFrom, hv, eq_comm]
  | cons c p ih =>
      intro v n hv
      rw [decimalDigits, List.all_cons]
      have hstep : decimalFrom v (c :: p) = decimalFrom (v * 10 + (c.toNat - 0x30)) p := rfl
      by_cases hd : isDigit c = true
      · rw [if_neg (isDigit_iff.1 hd), hd, Bool.true_and, hstep]
        have hle : c.toNat - 0x30 ≤ 9 := by
          have := UInt8.le_iff_toNat_le.1 (UInt8.not_lt.1 (not_or.1 (isDigit_iff.1 hd)).2)
          have h39 : (0x39 : UInt8).toNat = 57 := rfl
          omega
        by_cases hov : (max - (c.toNat - 0x30)) / 10 < v
        · -- The value is already too large after this digit.
          rw [if_pos hov]
          have hbig : max < v * 10 + (c.toNat - 0x30) := by omega
          have := le_decimalFrom p (v * 10 + (c.toNat - 0x30))
          constructor
          · intro h
            cases h
          · rintro ⟨-, h, -⟩
            omega
        · rw [if_neg hov]
          exact ih _ n (by omega)
      · have hd' : c < 0x30 ∨ 0x39 < c := by
          by_contra hn
          exact hd (isDigit_iff.2 hn)
        rw [if_pos hd']
        simp [hd]

/-- `parse_content_length` reads exactly the decimal numbers below 2^32. -/
theorem parseContentLength_iff {p : List UInt8} {n : Nat} :
    parseContentLength p = some n ↔
      p ≠ [] ∧ p.all isDigit = true ∧ decimal p < 2 ^ 32 ∧ n = decimal p := by
  have hmax : ∀ m, m ≤ UINT32_MAX ↔ m < 2 ^ 32 := by
    intro m
    unfold UINT32_MAX
    omega
  unfold parseContentLength decimal
  rw [← hmax]
  by_cases h : p.length = 0
  · rw [if_pos h]
    simp [List.length_eq_zero_iff.1 h]
  · rw [if_neg h, decimalDigits_iff (by decide) p 0 n (Nat.zero_le _)]
    have hne : p ≠ [] := fun e => h (by rw [e]; rfl)
    simp [hne]

/-! ## Host values -/

/-- The bytes of a host name. -/
def isHostChar (c : UInt8) : Bool := isAlpha c || isDigit c || c == DOT || c == DASH

/-- Nothing, or a colon and digits. -/
def isPort (p : List UInt8) : Prop :=
  p = [] ∨ ∃ ds, p = COLON :: ds ∧ ds ≠ [] ∧ ds.all isDigit = true

/-- A host name or a bracketed literal, with an optional port. -/
def isHost (v : List UInt8) : Prop :=
  ∃ host port, v = host ++ port ∧ isPort port ∧
    ((host ≠ [] ∧ host.all isHostChar = true) ∨
      ∃ inner, host = LBRACKET :: (inner ++ [RBRACKET]) ∧ inner ≠ [] ∧ RBRACKET ∉ inner ∧
        inner.all isTargetChar = true)

theorem visible_eq (c : UInt8) : (0x21 ≤ c && c ≤ 0x7E) = isTargetChar c := by
  rw [Bool.eq_iff_iff]
  simp only [isTargetChar, Bool.and_eq_true, decide_eq_true_eq, UInt8.le_iff_toNat_le,
    UInt8.lt_iff_toNat_lt]
  have h1 : (0x21 : UInt8).toNat = 33 := rfl
  have h2 : (0x7E : UInt8).toNat = 126 := rfl
  have h3 : (0x20 : UInt8).toNat = 32 := rfl
  have h4 : (0x7F : UInt8).toNat = 127 := rfl
  omega

theorem isTargetChar_of_isHostChar (c : UInt8) (h : isHostChar c = true) :
    isTargetChar c = true := by
  simp only [isHostChar, isAlpha, isDigit, Bool.or_eq_true, Bool.and_eq_true, decide_eq_true_eq,
    beq_iff_eq, UInt8.le_iff_toNat_le, ← UInt8.toNat_inj] at h
  simp only [isTargetChar, Bool.and_eq_true, decide_eq_true_eq, UInt8.lt_iff_toNat_lt]
  simp only [DOT, DASH, UInt8.reduceToNat] at h ⊢
  omega

theorem isHostChar_of_isDigit (c : UInt8) (h : isDigit c = true) : isHostChar c = true := by
  simp [isHostChar, h]

/-- A port is nothing, or a colon and digits. -/
theorem isPort_iff {p : List UInt8} :
    isPort p ↔ p = [] ∨ (p[0]? = some COLON ∧ 2 ≤ p.length ∧ (p.drop 1).all isDigit = true) := by
  unfold isPort
  refine or_congr Iff.rfl ⟨?_, ?_⟩
  · rintro ⟨ds, rfl, hne, hd⟩
    have := List.length_pos_iff.2 hne
    exact ⟨rfl, by rw [List.length_cons]; omega, hd⟩
  · rintro ⟨h0, hlen, hd⟩
    cases p with
    | nil => cases h0
    | cons c ds =>
        cases h0
        refine ⟨ds, rfl, ?_, hd⟩
        rintro rfl
        simp at hlen

theorem isPort_visible {p : List UInt8} (h : isPort p) : p.all isTargetChar = true := by
  rcases h with rfl | ⟨ds, rfl, -, hd⟩
  · rfl
  · have hc : isTargetChar COLON = true := by decide
    rw [List.all_cons, hc, Bool.true_and, List.all_eq_true]
    exact fun x hx => isTargetChar_of_isHostChar x
      (isHostChar_of_isDigit x (List.all_eq_true.1 hd x hx))

/-- A bracketed host is not empty and may have a port. -/
theorem validateHostLiteral_append {inner port : List UInt8} (h : RBRACKET ∉ inner) :
    validateHostLiteral (LBRACKET :: (inner ++ [RBRACKET]) ++ port) = true ↔
      inner ≠ [] ∧ isPort port := by
  have hsplit : LBRACKET :: (inner ++ [RBRACKET]) ++ port =
      (LBRACKET :: inner) ++ RBRACKET :: port := by simp
  have hne : RBRACKET ≠ LBRACKET := by decide
  have hmem : RBRACKET ∉ LBRACKET :: inner := by simp [h, hne]
  have hdrop : ((LBRACKET :: inner) ++ RBRACKET :: port).drop
      (inner.length + 1 + 1) = port := by
    rw [← List.drop_drop, ← List.length_cons, List.drop_left]
    rfl
  unfold validateHostLiteral
  simp only [hsplit, memchr_append_cons hmem, List.length_cons, hdrop, isPort_iff]
  by_cases h0 : inner = []
  · simp [h0]
  · have hpos : inner.length + 1 ≠ 1 := by
      have := List.length_pos_iff.2 h0
      omega
    rw [if_neg hpos]
    by_cases hp : port = []
    · simp [h0, hp]
    · have hlen : port.length ≠ 0 := by simpa using hp
      rw [if_neg hlen]
      by_cases hc : port[0]? ≠ some COLON ∨ port.length < 2
      · rw [if_pos hc]
        simp only [Bool.false_eq_true, false_iff]
        rintro ⟨-, h | ⟨h1, h2, -⟩⟩
        · exact hp h
        · rcases hc with hc | hc
          · exact hc h1
          · omega
      · rw [if_neg hc]
        push Not at hc
        simp [h0, hp, hc]

/-- A host without brackets is not empty and may have a port. -/
theorem validateHostName_iff {v : List UInt8} :
    validateHostName v = true ↔
      ∃ host port, v = host ++ port ∧ isPort port ∧ host ≠ [] ∧ host.all isHostChar = true := by
  have hcolon : isHostChar COLON = false := by decide
  have hnot : ∀ {host : List UInt8}, host.all isHostChar = true → COLON ∉ host := by
    intro host h hm
    rw [List.all_eq_true.1 h _ hm] at hcolon
    cases hcolon
  have hchar : ∀ l : List UInt8, (l.all fun c => isAlpha c || isDigit c || c == DOT || c == DASH) =
      l.all isHostChar := fun _ => rfl
  unfold validateHostName
  simp only [hchar]
  -- Without a colon all of the value is the name.
  cases hm : memchr v COLON with
  | none =>
      simp only [Option.getD_none, List.take_length]
      constructor
      · intro h
        split at h
        · cases h
        split at h
        · cases h
        rename_i h0 hall
        refine ⟨v, [], by simp, Or.inl rfl, ?_, ?_⟩
        · rintro rfl
          exact h0 rfl
        · simpa using hall
      · rintro ⟨host, port, rfl, hp, hne, hall⟩
        rcases hp with rfl | ⟨ds, rfl, -, -⟩
        · rw [List.append_nil, if_neg (by simpa using hne), if_neg]
          simpa using hall
        · exact absurd (memchr_eq_none.1 hm) (by simp)
  -- A first colon parts the name from the port.
  | some i =>
      obtain ⟨a, b, rfl, ha, rfl⟩ := memchr_eq_some hm
      have hdrop : (a ++ COLON :: b).drop (a.length + 1) = b := by
        rw [← List.drop_drop, List.drop_left]
        rfl
      simp only [Option.getD_some, List.take_left, hdrop]
      constructor
      · intro h
        split at h
        · cases h
        split at h
        · cases h
        split at h
        · cases h
        rename_i h0 hall hlen
        refine ⟨a, COLON :: b, rfl, Or.inr ⟨b, rfl, ?_, h⟩, ?_, ?_⟩
        · rintro rfl
          simp at hlen
        · rintro rfl
          exact h0 rfl
        · simpa using hall
      · rintro ⟨host, port, hv, hp, hne, hall⟩
        rcases hp with rfl | ⟨ds, rfl, hds, hd⟩
        · rw [List.append_nil] at hv
          exact absurd (hv ▸ List.mem_append_right _ List.mem_cons_self) (hnot hall)
        · obtain ⟨rfl, rfl⟩ := split_unique hv ha (hnot hall)
          have hpos := List.length_pos_iff.2 hds
          rw [if_neg (by simpa using hne), if_neg (by simpa using hall),
            if_neg (by rw [List.length_append, List.length_cons]; omega)]
          exact hd

/-- `validate_host` accepts exactly the Host values of the grammar. -/
theorem validateHost_iff (v : List UInt8) : validateHost v = true ↔ isHost v := by
  have hall : v.all (fun c => 0x21 ≤ c && c ≤ 0x7E) = v.all isTargetChar := by
    congr 1
    funext c
    exact visible_eq c
  have hvis : isHost v → v ≠ [] ∧ v.all isTargetChar = true := by
    rintro ⟨host, port, rfl, hp, h⟩
    rw [List.all_append, isPort_visible hp, Bool.and_true]
    rcases h with ⟨hne, hh⟩ | ⟨inner, rfl, -, -, hi⟩
    · exact ⟨by simp [hne], List.all_eq_true.2 fun x hx =>
        isTargetChar_of_isHostChar x (List.all_eq_true.1 hh x hx)⟩
    · have h1 : isTargetChar LBRACKET = true := by decide
      have h2 : isTargetChar RBRACKET = true := by decide
      exact ⟨by simp, by simp [h1, h2, hi]⟩
  unfold validateHost
  rw [hall]
  by_cases h0 : v.length = 0
  · rw [if_pos h0]
    simp only [Bool.false_eq_true, false_iff]
    exact fun h => (hvis h).1 (List.length_eq_zero_iff.1 h0)
  rw [if_neg h0]
  by_cases hv : v.all isTargetChar = true
  · rw [hv, Bool.not_true, if_neg Bool.false_ne_true]
    -- A literal in brackets, or else a name.
    by_cases hb : v[0]? = some LBRACKET
    · rw [if_pos hb]
      constructor
      · intro h
        cases v with
        | nil => cases hb
        | cons c r =>
            cases hb
            cases hm : memchr (LBRACKET :: r) RBRACKET with
            | none =>
                unfold validateHostLiteral at h
                rw [hm] at h
                cases h
            | some i =>
                obtain ⟨a, port, hab, ha, -⟩ := memchr_eq_some hm
                cases a with
                | nil => cases (List.cons.inj hab).1
                | cons x inner =>
                    simp only [List.cons_append, List.cons.injEq] at hab
                    obtain ⟨rfl, rfl⟩ := hab
                    have hin : RBRACKET ∉ inner := fun hm => ha (List.mem_cons_of_mem _ hm)
                    have e : LBRACKET :: (inner ++ RBRACKET :: port) =
                        LBRACKET :: (inner ++ [RBRACKET]) ++ port := by simp
                    rw [e] at h hv ⊢
                    obtain ⟨hne, hp⟩ := (validateHostLiteral_append hin).1 h
                    refine ⟨_, port, rfl, hp, Or.inr ⟨inner, rfl, hne, hin, ?_⟩⟩
                    simp only [List.cons_append, List.all_cons, List.all_append,
                      Bool.and_eq_true] at hv
                    exact hv.2.1.1
      · rintro ⟨host, port, rfl, hp, h⟩
        rcases h with ⟨hne, hh⟩ | ⟨inner, rfl, hne, hin, -⟩
        · cases host with
          | nil => exact absurd rfl hne
          | cons c host =>
              cases hb
              exact absurd (List.all_eq_true.1 hh _ List.mem_cons_self) (by decide)
        · exact (validateHostLiteral_append hin).2 ⟨hne, hp⟩
    · rw [if_neg hb, validateHostName_iff]
      constructor
      · rintro ⟨host, port, he, hp, hne, hh⟩
        exact ⟨host, port, he, hp, Or.inl ⟨hne, hh⟩⟩
      · rintro ⟨host, port, he, hp, h | ⟨inner, rfl, -⟩⟩
        · exact ⟨host, port, he, hp, h⟩
        · rw [he] at hb
          exact absurd rfl hb
  -- Bytes that are not visible are refused at once.
  · have hf : v.all isTargetChar = false := by simpa using hv
    rw [hf, Bool.not_false, if_pos rfl]
    simp only [Bool.false_eq_true, false_iff]
    exact fun h => hv (hvis h).2

/-! ## Abstract requests -/

/-- A request said without offsets: an origin-form target and header lines that
meet the rules between lines. -/
structure AbstractRequest where
  method : List UInt8
  path : List UInt8
  query : Option (List UInt8)
  minor : Fin 2
  fields : List HeaderField
  method_ne : method ≠ []
  method_tchar : method.all isTchar = true
  path_slash : path.head? = some SLASH
  path_chars : path.all isTargetChar = true
  path_no_query : QMARK ∉ path
  query_chars : ∀ q ∈ query, q.all isTargetChar = true
  host_once : countKind .host fields ≤ 1
  host_valid : ∀ f ∈ fields, f.kind = .host → isHost f.value
  host_present : minor = 1 → 0 < countKind .host fields
  length_once : countKind .contentLength fields ≤ 1
  length_valid : ∀ f ∈ fields, f.kind = .contentLength →
    f.value ≠ [] ∧ f.value.all isDigit = true ∧ decimal f.value < 2 ^ 32
  no_transfer : countKind .transferEncoding fields = 0

/-- The bytes a slice of the buffer stands for. -/
def HttpSlice.bytes (s : HttpSlice) (buf : List UInt8) : List UInt8 := (buf.drop s.off).take s.len

/-- The method names `parse_method` knows. -/
def HttpMethod.text : HttpMethod → Option (List UInt8)
  | .unknown => none
  | .get => some (cstr "GET")
  | .post => some (cstr "POST")
  | .head => some (cstr "HEAD")
  | .put => some (cstr "PUT")
  | .delete => some (cstr "DELETE")

namespace AbstractRequest

/-- The query with its question mark, if there is one. -/
def queryBytes (r : AbstractRequest) : List UInt8 :=
  match r.query with
  | none => []
  | some q => QMARK :: q

theorem queryBytes_chars (r : AbstractRequest) : r.queryBytes.all isTargetChar = true := by
  have h := r.query_chars
  unfold queryBytes
  cases hq : r.query with
  | none => rfl
  | some q =>
      have hm : isTargetChar QMARK = true := by decide
      rw [List.all_cons, hm, h q hq, Bool.and_self]

/-- The head of a request. -/
def head (r : AbstractRequest) : Head where
  method := r.method
  target := .origin (r.path ++ r.queryBytes)
    (by
      have := r.path_slash
      cases hp : r.path with
      | nil => simp [hp] at this
      | cons c p => simpa [hp] using this)
    (by rw [List.all_append, r.path_chars, r.queryBytes_chars, Bool.and_self])
  minor := r.minor
  fields := r.fields
  method_ne := r.method_ne
  method_tchar := r.method_tchar

/-- The request as it is sent. -/
def render (r : AbstractRequest) : List UInt8 := r.head.render

/-- The head of an abstract request keeps the rules of the parser. -/
theorem rules (r : AbstractRequest) : r.head.Rules where
  host_once := r.host_once
  host_valid := fun f hf hk => (validateHost_iff f.value).2 (r.host_valid f hf hk)
  length_once := r.length_once
  length_valid := fun f hf hk => by
    obtain ⟨hne, hd, hlt⟩ := r.length_valid f hf hk
    rw [parseContentLength_iff.2 ⟨hne, hd, hlt, rfl⟩]
    rfl
  host_present := r.host_present
  transfer_alone := fun h => by
    have : r.head.count .transferEncoding = 0 := r.no_transfer
    omega

/-- A Connection line lists the token `tok`, whatever the letter case. -/
def connectionLists (r : AbstractRequest) (tok : List UInt8) : Prop :=
  ∃ f ∈ r.fields, f.kind = .connection ∧ hasToken f.value tok

/-- The record `req` denotes the request `r` rendered at the start of `buf`. -/
structure Denotes (r : AbstractRequest) (buf : List UInt8) (req : HttpRequest) : Prop where
  headerBytes : req.headerBytes = r.render.length
  method : ∀ m, m ≠ .unknown → (req.method = m ↔ m.text = some r.method)
  minorVersion : req.minorVersion = r.minor.val
  target : req.target.bytes buf = r.path ++ r.queryBytes
  path : req.path.bytes buf = r.path
  query : ∀ q, r.query = some q → req.query.bytes buf = q
  query_none : r.query = none → req.query = ⟨0, 0⟩
  headerBlock : req.headerBlock.bytes buf = renderFields r.fields
  host : ∀ f ∈ r.fields, f.kind = .host → req.host.bytes buf = f.value
  host_none : countKind .host r.fields = 0 → req.host = ⟨0, 0⟩
  contentLength : ∀ f ∈ r.fields, f.kind = .contentLength → req.contentLength = decimal f.value
  contentLength_none : countKind .contentLength r.fields = 0 → req.contentLength = 0
  contentLength_flag : req.flags.contentLength = true ↔ 0 < countKind .contentLength r.fields
  transferEncoding_flag : req.flags.transferEncoding = false
  close_flag : req.flags.connectionClose = true ↔ r.connectionLists (cstr "close")
  keepAlive_flag : req.flags.connectionKeepAlive = true ↔ r.connectionLists (cstr "keep-alive")

end AbstractRequest

/-! ## Slices of a rendering -/

theorem u16_of_le {n : Nat} (h : n ≤ HTTP_PARSE_MAX_LEN) : u16 n = n :=
  Nat.mod_eq_of_lt (by unfold HTTP_PARSE_MAX_LEN at h; omega)

/-- A 16-bit slice stands for the middle of a short buffer. -/
theorem bytes_slice {a b c : List UInt8} (h : a.length + b.length ≤ HTTP_PARSE_MAX_LEN) :
    HttpSlice.bytes ⟨u16 a.length, u16 b.length⟩ (a ++ (b ++ c)) = b := by
  unfold HttpSlice.bytes
  rw [u16_of_le (by omega : a.length ≤ _), u16_of_le (by omega : b.length ≤ _), List.drop_left,
    List.take_left]

/-- `parse_method` knows the methods by their texts. -/
theorem parseMethod_iff (p : List UInt8) (m : HttpMethod) (hm : m ≠ .unknown) :
    parseMethod p = m ↔ m.text = some p := by
  have hget : (cstr "GET").length = 3 := by decide
  have hput : (cstr "PUT").length = 3 := by decide
  have hpost : (cstr "POST").length = 4 := by decide
  have hhead : (cstr "HEAD").length = 4 := by decide
  have hdelete : (cstr "DELETE").length = 6 := by decide
  constructor
  · rintro rfl
    unfold parseMethod at hm ⊢
    repeat' split at hm
    all_goals simp_all [HttpMethod.text]
  · intro h
    cases m with
    | unknown => exact absurd rfl hm
    | get => cases h; decide
    | post => cases h; decide
    | head => cases h; decide
    | put => cases h; decide
    | delete => cases h; decide

/-- The value of a header line of a rendered head, as bytes of the buffer. -/
theorem bytes_value {h : Head} {pre post : List HeaderField} {f : HeaderField}
    (hf : h.fields = pre ++ f :: post) (hne : f.value ≠ []) (tail : List UInt8)
    (hlen : h.render.length ≤ HTTP_PARSE_MAX_LEN) :
    HttpSlice.bytes ⟨u16 (f.valueOff (h.blockOff + (renderFields pre).length)),
      u16 f.value.length⟩ (h.render ++ tail) = f.value := by
  have htw : f.raw.takeWhile isOws = f.lead := by
    cases hv : f.value with
    | nil => exact absurd hv hne
    | cons x v =>
        have ht := f.value_trimmed
        rw [hv] at ht
        rw [HeaderField.raw, hv]
        exact takeWhile_pad f.lead_ows (head_of_trim_eq ht)
  have hfs : renderFields h.fields = renderFields pre ++ (f.render ++ renderFields post) := by
    rw [hf, renderFields, List.flatMap_append]
    rfl
  have hoff : f.valueOff (h.blockOff + (renderFields pre).length) =
      (h.requestLine ++ CRLF ++ renderFields pre ++ (f.name ++ [COLON]) ++ f.lead).length := by
    rw [HeaderField.valueOff, htw]
    simp [Head.blockOff]
    omega
  have hbuf : h.render ++ tail =
      (h.requestLine ++ CRLF ++ renderFields pre ++ (f.name ++ [COLON]) ++ f.lead) ++ (f.value ++
        (f.trail ++ CRLF ++ renderFields post ++ CRLF ++ tail)) := by
    rw [Head.render, hfs, HeaderField.render, HeaderField.line, HeaderField.raw]
    simp
  rw [hoff, hbuf]
  refine bytes_slice ?_
  have hr : h.render = (h.requestLine ++ CRLF ++ renderFields pre ++ (f.name ++ [COLON]) ++
      f.lead) ++ (f.value ++ (f.trail ++ CRLF ++ renderFields post ++ CRLF)) := by
    rw [Head.render, hfs, HeaderField.render, HeaderField.line, HeaderField.raw]
    simp
  have hl := congrArg List.length hr
  simp only [List.length_append] at hl ⊢
  omega

namespace AbstractRequest

/-- What `parse_request_target` stores for the path and query of `r`. -/
theorem targetSlices_head (r : AbstractRequest) (req : HttpRequest) :
    targetSlices (r.method.length + 1) r.head.target req = { req with
      target := ⟨u16 (r.method.length + 1), u16 (r.path ++ r.queryBytes).length⟩
      path := ⟨u16 (r.method.length + 1), u16 r.path.length⟩
      query := match r.query with
        | none => req.query
        | some q => ⟨u16 (r.method.length + 1 + (r.path.length + 1)), u16 q.length⟩ } := by
  have hidx : r.head.target.pathIndex = some 0 := rfl
  have hbytes : r.head.target.bytes = r.path ++ r.queryBytes := rfl
  have hpath : r.head.target.path = r.path ++ r.queryBytes := rfl
  unfold targetSlices
  rw [hidx, hbytes, hpath]
  cases hq : r.query with
  | none =>
      have hb : r.queryBytes = [] := by rw [queryBytes, hq]
      simp only [hb, List.append_nil, memchr_eq_none.2 r.path_no_query, Nat.add_zero]
  | some q =>
      have hb : r.queryBytes = QMARK :: q := by rw [queryBytes, hq]
      have hlen : (r.path ++ QMARK :: q).length - (r.path.length + 1) = q.length := by
        rw [List.length_append, List.length_cons]
        omega
      simp only [hb, memchr_append_cons r.path_no_query, Nat.add_zero, hlen]

/-- The rendering as the request line in parts, the header lines and the rest. -/
theorem render_append (r : AbstractRequest) (tail : List UInt8) :
    r.render ++ tail = r.method ++ [SP] ++ (r.path ++ (r.queryBytes ++
      (SP :: Head.version r.minor ++ CRLF ++ renderFields r.fields ++ CRLF ++ tail))) := by
  rw [render, Head.render_append, Head.requestLine]
  simp [head, Target.bytes]

/-- The record after the request line of `r`. -/
theorem lineRequest_head (r : AbstractRequest) : r.head.lineRequest = { HttpRequest.zero with
    method := parseMethod r.method
    minorVersion := r.minor.val
    target := ⟨u16 (r.method.length + 1), u16 (r.path ++ r.queryBytes).length⟩
    path := ⟨u16 (r.method.length + 1), u16 r.path.length⟩
    query := match r.query with
      | none => ⟨0, 0⟩
      | some q => ⟨u16 (r.method.length + 1 + (r.path.length + 1)), u16 q.length⟩
    headerBlock := ⟨u16 r.head.blockOff, 0⟩ } := by
  have hslices := r.targetSlices_head { HttpRequest.zero with method := parseMethod r.method }
  unfold Head.lineRequest lineSlices
  have hm : r.head.method = r.method := rfl
  rw [hm, hslices]
  rfl

/-- A result of the parser on the rendering of `r` denotes `r`. -/
theorem denotes_of_headResult {r : AbstractRequest} {req : HttpRequest}
    (hres : HeadResult r.head req) (tail : List UInt8)
    (hlen : r.render.length ≤ HTTP_PARSE_MAX_LEN) : r.Denotes (r.render ++ tail) req := by
  obtain ⟨q, seen, hq, rfl⟩ := hres.fields
  obtain ⟨htarget, hpath, hquery, -, hmethod, hminor⟩ := hq.same
  have hline := r.lineRequest_head
  -- The lengths of the parts add up to the length of the head.
  have hlens : r.method.length + 1 + (r.path.length + r.queryBytes.length) + 11 +
      (renderFields r.fields).length + 2 = r.render.length := by
    have := congrArg List.length (r.render_append [])
    simp only [List.length_append, List.length_cons, List.length_nil, version_length] at this
    omega
  have hmlen : r.method.length + 1 = (r.method ++ [SP]).length := by simp
  rw [hline] at htarget hpath hquery hmethod hminor
  constructor
  case headerBytes => exact u16_of_le hlen
  case method =>
    intro m hm
    show q.method = m ↔ m.text = some r.method
    rw [hmethod]
    exact parseMethod_iff r.method m hm
  case minorVersion => exact hminor
  case target =>
    show q.target.bytes _ = _
    rw [htarget, r.render_append, hmlen, ← List.append_assoc r.path]
    refine bytes_slice ?_
    simp only [List.length_append, List.length_cons, List.length_nil]
    omega
  case path =>
    show q.path.bytes _ = _
    rw [hpath, r.render_append, hmlen]
    refine bytes_slice ?_
    simp only [List.length_append, List.length_cons, List.length_nil]
    omega
  -- The query starts one byte after the path.
  case query =>
    intro b hb
    show q.query.bytes _ = b
    have hqb : r.queryBytes = QMARK :: b := by rw [queryBytes, hb]
    have hoff : r.method.length + 1 + (r.path.length + 1) =
        (r.method ++ [SP] ++ r.path ++ [QMARK]).length := by
      simp
      omega
    rw [hquery, hb, r.render_append, hqb, hoff]
    rw [hqb, List.length_cons] at hlens
    have hsplit : r.method ++ [SP] ++ (r.path ++ (QMARK :: b ++
        (SP :: Head.version r.minor ++ CRLF ++ renderFields r.fields ++ CRLF ++ tail))) =
        (r.method ++ [SP] ++ r.path ++ [QMARK]) ++ (b ++
          (SP :: Head.version r.minor ++ CRLF ++ renderFields r.fields ++ CRLF ++ tail)) := by
      simp
    rw [hsplit]
    refine bytes_slice ?_
    simp only [List.length_append, List.length_cons, List.length_nil]
    omega
  case query_none =>
    intro hb
    show q.query = _
    rw [hquery, hb]
  -- The block starts after the request line.
  case headerBlock =>
    have hoff : r.head.blockOff = (r.head.requestLine ++ CRLF).length := by
      simp [Head.blockOff]
    have hr : r.head.blockOff + (renderFields r.fields).length + 2 = r.render.length :=
      r.head.render_length.symm
    have hsub : r.head.blockOff + (renderFields r.head.fields).length - u16 r.head.blockOff =
        (renderFields r.fields).length := by
      rw [u16_of_le (by omega : r.head.blockOff ≤ _)]
      exact Nat.add_sub_cancel_left _ _
    show HttpSlice.bytes ⟨u16 r.head.blockOff, u16 _⟩ _ = _
    rw [hsub, render, Head.render_append, hoff, ← List.append_assoc]
    refine bytes_slice ?_
    rw [← hoff]
    omega
  -- The slice of the one `Host` field.
  case host =>
    intro f hf hk
    obtain ⟨pre, post, hsplit⟩ := List.append_of_mem hf
    show q.host.bytes _ = _
    rw [hq.host_value pre f post hsplit hk]
    refine bytes_value hsplit ?_ tail hlen
    intro hnil
    have hv := (validateHost_iff _).2 (r.host_valid f hf hk)
    rw [hnil] at hv
    exact absurd hv (by decide)
  case host_none =>
    intro h0
    show q.host = _
    rw [hq.host_absent h0, hline]
    rfl
  case contentLength =>
    intro f hf hk
    have := hq.length_value f hf hk
    exact (parseContentLength_iff.1 this).2.2.2
  case contentLength_none =>
    intro h0
    show q.contentLength = 0
    rw [hq.length_absent h0, hline]
    rfl
  case contentLength_flag =>
    show q.flags.contentLength = true ↔ _
    rw [hq.contentLength, Head.lineRequest_flags]
    show (false || decide (0 < countKind .contentLength r.fields)) = true ↔ _
    rw [Bool.false_or, decide_eq_true_iff]
  case transferEncoding_flag =>
    have h0 : countKind .transferEncoding r.head.fields = 0 := r.no_transfer
    show q.flags.transferEncoding = false
    rw [hq.transferEncoding, Head.lineRequest_flags, h0]
    rfl
  case close_flag =>
    show q.flags.connectionClose = true ↔ _
    rw [hq.close, Head.lineRequest_flags]
    exact or_iff_right Bool.false_ne_true
  case keepAlive_flag =>
    show q.flags.connectionKeepAlive = true ↔ _
    rw [hq.keepAlive, Head.lineRequest_flags]
    exact or_iff_right Bool.false_ne_true

end AbstractRequest

/-- Decoding after encoding: a rendered request is accepted, whatever follows it,
with as many bytes as it was rendered to, and the record denotes its parts. -/
theorem httpParseRequest_render (r : AbstractRequest) (tail : List UInt8)
    (hlen : (r.render ++ tail).length ≤ HTTP_PARSE_MAX_LEN) :
    ∃ req, httpParseRequest (r.render ++ tail) = .ok req ∧ r.Denotes (r.render ++ tail) req := by
  obtain ⟨req, hparse, hres⟩ := parse_render_ok r.rules r.no_transfer tail
  have hpre : r.render.length ≤ HTTP_PARSE_MAX_LEN := by
    rw [List.length_append] at hlen
    omega
  refine ⟨req, ?_, AbstractRequest.denotes_of_headResult hres tail hpre⟩
  rw [httpParseRequest_of_le hlen]
  exact hparse

/-- `HOST: x`, with white space on both sides of the value. -/
def hostField : HeaderField where
  name := cstr "HOST"
  lead := [SP, HTAB]
  value := cstr "x:80"
  trail := [SP]
  name_ne := by decide
  name_tchar := by decide
  lead_ows := by decide
  trail_ows := by decide
  value_vchar := by decide
  value_trimmed := by decide

theorem hostField_present : (⟨1, Nat.one_lt_two⟩ : Fin 2) = 1 → 0 < countKind .host [hostField] := by
  decide

/-- A GET with a query. -/
def getRequest : AbstractRequest where
  method := cstr "GET"
  path := cstr "/a"
  query := some (cstr "b?")
  minor := ⟨1, Nat.one_lt_two⟩
  fields := [hostField]
  method_ne := by decide
  method_tchar := by decide
  path_slash := by decide
  path_chars := by decide
  path_no_query := by decide
  query_chars := by decide
  host_once := by decide
  host_valid := by
    intro f hf _
    rw [List.mem_singleton.1 hf]
    exact (validateHost_iff _).1 (by decide)
  host_present := hostField_present
  length_once := by decide
  length_valid := by
    intro f hf hk
    rw [List.mem_singleton.1 hf] at hk
    exact absurd hk (by decide)
  no_transfer := by decide

/-- The bytes after the head are not read. -/
theorem httpParseRequest_render_getRequest :
    ∃ req, httpParseRequest (getRequest.render ++ cstr "Host: y\r\n\r\n") = .ok req ∧
      getRequest.Denotes (getRequest.render ++ cstr "Host: y\r\n\r\n") req :=
  httpParseRequest_render getRequest (cstr "Host: y\r\n\r\n") (by decide)

end TinyServer.Http
