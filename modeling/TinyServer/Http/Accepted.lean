import TinyServer.Http.RoundTrip

/-!
# Accepted buffers

What `http_parse_request` accepts starts with a rendered head that meets the rules
and has no Transfer-Encoding line; the record it stores describes that head.
-/

set_option autoImplicit false

namespace TinyServer.Http

/-- The head that an accepted buffer starts with. -/
structure AcceptedHead (buf : List UInt8) (req : HttpRequest) (hd : Head) : Prop where
  canonical : ∀ f ∈ hd.fields, f.Canonical
  rules : hd.Rules
  no_transfer : hd.count .transferEncoding = 0
  short : hd.render.length ≤ HTTP_PARSE_MAX_LEN
  starts : hd.render <+: buf
  result : HeadResult hd req

theorem Head.lineRequest_contentLength (h : Head) : h.lineRequest.contentLength = 0 := by
  unfold lineRequest lineSlices targetSlices
  split
  · rfl
  · split <;> rfl

/-- A cast to 16 bits does not add to an offset. -/
theorem u16_le (n : Nat) : u16 n ≤ n := Nat.mod_le _ _

theorem Target.pathIndex_le (t : Target) {i : Nat} (h : t.pathIndex = some i) :
    i ≤ t.bytes.length := by
  cases t with
  | origin path _ _ =>
      cases h
      exact Nat.zero_le _
  | absolute s a p _ _ _ _ =>
      simp only [Target.pathIndex] at h
      split at h
      · cases h
      · cases h
        show _ ≤ (s ++ a ++ p).length
        rw [List.length_append, List.length_append]
        omega

/-- The path and the query are parts of the request line. -/
theorem Head.lineRequest_slices (h : Head) :
    h.lineRequest.path.off + h.lineRequest.path.len ≤ h.requestLine.length ∧
      h.lineRequest.query.off + h.lineRequest.query.len ≤ h.requestLine.length := by
  have hline : h.method.length + 1 + h.target.bytes.length ≤ h.requestLine.length := by
    unfold Head.requestLine
    simp only [List.length_append, List.length_cons]
    omega
  unfold lineRequest lineSlices targetSlices
  cases hi : h.target.pathIndex with
  | none => exact ⟨Nat.zero_le _, Nat.zero_le _⟩
  | some start =>
      have hlen := congrArg List.length (h.target.drop_pathIndex hi)
      have hle := h.target.pathIndex_le hi
      have hoff := u16_le (h.method.length + 1 + start)
      rw [List.length_drop] at hlen
      simp only
      cases hq : memchr h.target.path QMARK with
      | none =>
          refine ⟨?_, Nat.zero_le _⟩
          have := u16_le h.target.path.length
          show u16 _ + u16 _ ≤ _
          omega
      | some q =>
          have hlt := memchr_lt hq
          constructor
          · have := u16_le q
            show u16 _ + u16 _ ≤ _
            omega
          · have := u16_le (h.method.length + 1 + start + (q + 1))
            have := u16_le (h.target.path.length - (q + 1))
            show u16 _ + u16 _ ≤ _
            omega

/-- What the parser accepts is a head, with whatever follows it. -/
theorem exists_head_of_accept {buf : List UInt8} {req : HttpRequest}
    (h : httpParseRequest buf = .ok req) : ∃ hd, AcceptedHead buf req hd := by
  have key : ∀ p : List UInt8, p.length ≤ HTTP_PARSE_MAX_LEN → p <+: buf →
      parse p .zero = .ok req → ∃ hd, AcceptedHead buf req hd := by
    intro p hlen hp hparse
    obtain ⟨hd, tail, hcan, rfl, hr⟩ := exists_head_of_parse hparse nofun nofun
    have ht : hd.count .transferEncoding = 0 := by
      by_contra hne
      rw [parse_render_unsupported hr (Nat.pos_of_ne_zero hne)] at hparse
      cases hparse
    obtain ⟨req', hok, hres⟩ := parse_render_ok hr ht tail
    rw [hparse] at hok
    cases hok
    rw [List.length_append] at hlen
    exact ⟨hd, hcan, hr, ht, by omega, (List.prefix_append _ _).trans hp, hres⟩
  by_cases hle : buf.length ≤ HTTP_PARSE_MAX_LEN
  · rw [httpParseRequest_of_le hle] at h
    exact key buf hle (List.prefix_refl _) h
  · rw [httpParseRequest_of_lt (by omega)] at h
    refine key _ (List.length_take_le _ _) (List.take_prefix _ _) ?_
    split at h
    · cases h
    · exact h

namespace AcceptedHead

variable {buf : List UInt8} {req : HttpRequest} {hd : Head} (h : AcceptedHead buf req hd)

include h

/-- `header_bytes` is the length of the head. -/
theorem headerBytes_eq : req.headerBytes = hd.render.length := by
  obtain ⟨r, seen, -, rfl⟩ := h.result
  have := h.short
  unfold HTTP_PARSE_MAX_LEN at this
  exact Nat.mod_eq_of_lt (by omega)

theorem headerBytes_le : req.headerBytes ≤ buf.length := by
  rw [h.headerBytes_eq]
  exact h.starts.length_le

/-- The first `header_bytes` bytes are the head. -/
theorem take_headerBytes : buf.take req.headerBytes = hd.render := by
  rw [h.headerBytes_eq]
  exact (List.prefix_iff_eq_take.1 h.starts).symm

/-- The flag says whether there is a Content-Length field. -/
theorem contentLength_flag :
    req.flags.contentLength = decide (0 < hd.count .contentLength) := by
  obtain ⟨r, seen, hf, rfl⟩ := h.result
  have := hf.contentLength
  rw [hd.lineRequest_flags] at this
  exact this

theorem contentLength_lt : req.contentLength < 2 ^ 32 := by
  obtain ⟨r, seen, hf, rfl⟩ := h.result
  show r.contentLength < 2 ^ 32
  by_cases hc : countKind .contentLength hd.fields = 0
  · rw [hf.length_absent hc, hd.lineRequest_contentLength]
    exact Nat.two_pow_pos 32
  · obtain ⟨f, hmem, hk⟩ := countKind_pos.1 (Nat.pos_of_ne_zero hc)
    obtain ⟨-, -, hlt, heq⟩ := parseContentLength_iff.1 (hf.length_value f hmem hk)
    rw [heq]
    exact hlt

/-- A slice of the request line has no CR. -/
theorem cr_not_mem_slice {s : HttpSlice} (hs : s.off + s.len ≤ hd.requestLine.length) {k : Nat}
    (hk : k ≤ s.len) : CR ∉ (buf.drop s.off).take k := by
  obtain ⟨rest, rfl⟩ := h.starts
  rw [hd.render_append, List.drop_append_of_le_length (by omega),
    List.take_append_of_le_length (by rw [List.length_drop]; omega)]
  intro hmem
  exact hd.cr_not_mem_requestLine (List.mem_of_mem_drop (List.mem_of_mem_take hmem))

/-- The path and the query lie in the request line. -/
theorem slices : req.path.off + req.path.len ≤ hd.requestLine.length ∧
    req.query.off + req.query.len ≤ hd.requestLine.length := by
  obtain ⟨r, seen, hf, rfl⟩ := h.result
  obtain ⟨-, hpath, hquery, -⟩ := hf.same
  rw [show r.path = hd.lineRequest.path from hpath, show r.query = hd.lineRequest.query from hquery]
  exact hd.lineRequest_slices

/-- There is no line end in a path. -/
theorem cr_not_mem_path {k : Nat} (hk : k ≤ req.path.len) :
    CR ∉ (buf.drop req.path.off).take k := h.cr_not_mem_slice h.slices.1 hk

/-- There is none in a query. -/
theorem cr_not_mem_query : CR ∉ req.query.bytes buf :=
  h.cr_not_mem_slice h.slices.2 (Nat.le_refl _)

end AcceptedHead

/-! ## What the record says of the lines -/

section Records

variable {buf : List UInt8} {req : HttpRequest} {hd : Head}

theorem lineRequest_host (h : Head) : h.lineRequest.host = ⟨0, 0⟩ := by
  unfold Head.lineRequest lineSlices targetSlices
  split
  · rfl
  · split <;> rfl

/-- A slice of the request line stands for the same bytes in every buffer that starts with
the line. -/
theorem slice_bytes (h : AcceptedHead buf req hd) {s : HttpSlice}
    (hs : s.off + s.len ≤ hd.requestLine.length) : s.bytes buf = s.bytes hd.requestLine := by
  obtain ⟨rest, rfl⟩ := h.starts
  unfold HttpSlice.bytes
  rw [hd.render_append, List.drop_append_of_le_length (by omega),
    List.take_append_of_le_length (by rw [List.length_drop]; omega)]

/-- The target slice of an accepted buffer holds the target of its head. -/
theorem target_bytes (h : AcceptedHead buf req hd) : req.target.bytes buf = hd.target.bytes := by
  obtain ⟨tail, htail⟩ := h.starts
  obtain ⟨r, seen, hf, rfl⟩ := h.result
  have hslice : r.target = ⟨u16 (hd.method ++ [SP]).length, u16 hd.target.bytes.length⟩ := by
    rw [hf.same.1, List.length_append]
    unfold Head.lineRequest lineSlices targetSlices
    split
    · rfl
    · split <;> rfl
  have hshort : (hd.method ++ [SP]).length + hd.target.bytes.length ≤ HTTP_PARSE_MAX_LEN := by
    have hle := h.short
    have hline : hd.requestLine.length ≤ hd.render.length := by
      rw [hd.render_length, Head.blockOff]
      omega
    rw [Head.requestLine, List.length_append, List.length_cons, List.length_append] at hline
    rw [List.length_append, List.length_singleton]
    omega
  have hbuf : buf = (hd.method ++ [SP]) ++ (hd.target.bytes ++
      (SP :: Head.version hd.minor ++ CRLF ++ renderFields hd.fields ++ CRLF ++ tail)) := by
    rw [← htail]
    simp [Head.render, Head.requestLine]
  show r.target.bytes buf = _
  rw [hslice, hbuf]
  exact bytes_slice hshort

/-- The text of the Host line. -/
theorem host_bytes (h : AcceptedHead buf req hd) {f : HeaderField} (hf : f ∈ hd.fields)
    (hk : f.kind = .host) : req.host.bytes buf = f.value := by
  obtain ⟨q, seen, hq, rfl⟩ := h.result
  obtain ⟨pre, post, hsplit⟩ := List.append_of_mem hf
  obtain ⟨rest, rfl⟩ := h.starts
  show q.host.bytes _ = _
  rw [hq.host_value pre f post hsplit hk]
  refine bytes_value hsplit ?_ rest h.short
  intro hnil
  have hv := h.rules.host_valid f hf hk
  rw [hnil] at hv
  exact absurd hv (by decide)

/-- Without a Host field the host is empty. -/
theorem host_bytes_absent (h : AcceptedHead buf req hd) (hc : hd.count .host = 0) :
    req.host.bytes buf = [] := by
  obtain ⟨q, seen, hq, rfl⟩ := h.result
  show q.host.bytes _ = _
  rw [hq.host_absent hc, lineRequest_host]
  exact List.take_zero

/-- `content_length` is the value of the Content-Length field. -/
theorem contentLength_value (h : AcceptedHead buf req hd) {f : HeaderField} (hf : f ∈ hd.fields)
    (hk : f.kind = .contentLength) : parseContentLength f.value = some req.contentLength := by
  obtain ⟨q, seen, hq, rfl⟩ := h.result
  exact hq.length_value f hf hk

/-- Without the field it is 0. -/
theorem contentLength_absent (h : AcceptedHead buf req hd) (hc : hd.count .contentLength = 0) :
    req.contentLength = 0 := by
  obtain ⟨q, seen, hq, rfl⟩ := h.result
  show q.contentLength = 0
  rw [hq.length_absent hc, hd.lineRequest_contentLength]

/-- What the request line alone decides. -/
theorem line_same (h : AcceptedHead buf req hd) : req.method = hd.lineRequest.method ∧
    req.minorVersion = hd.lineRequest.minorVersion ∧ req.path = hd.lineRequest.path ∧
      req.query = hd.lineRequest.query := by
  obtain ⟨q, seen, hq, rfl⟩ := h.result
  obtain ⟨-, hpath, hquery, -, hmethod, hminor⟩ := hq.same
  exact ⟨hmethod, hminor, hpath, hquery⟩

end Records

end TinyServer.Http
