import TinyServer.Proxy.Forwarded

/-!
# The forwarded head, parsed again

What `rewrite_request` makes of an accepted head is an accepted head: it says the same
request to the upstream. `forwardedHead` is that head as structured data, so the rules of
the parser are checked on its fields, and both records describe the same parts
(`rewriteRequest_reparsed`).
-/

set_option autoImplicit false

namespace TinyServer.Proxy

open TinyServer.Http TinyServer.Lib

/-! ## The names that are dropped -/

/-- The hop-by-hop names of a request or a response, in lower case. -/
def hopNames (request : Bool) : List (List UInt8) :=
  [cstr "connection", cstr "keep-alive", cstr "proxy-connection", cstr "upgrade", cstr "te",
    cstr "trailer"] ++ if request then [cstr "expect", cstr "transfer-encoding"] else []

/-- A name compares equal to a lower-case literal of its length in any letter case. -/
theorem ieq_iff {name lit : List UInt8} :
    name.length = lit.length ∧ ieq name lit = true ↔ name.map asciiLower = lit := by
  unfold ieq
  constructor
  · rintro ⟨hlen, h⟩
    rw [← hlen, List.take_length] at h
    exact eq_of_beq h
  · rintro rfl
    rw [List.length_map, List.take_length]
    exact ⟨rfl, beq_self_eq_true _⟩

/-- `hop_by_hop` knows the names of hop-by-hop fields. -/
theorem hopByHop_iff (name : List UInt8) (request : Bool) :
    hopByHop name request = true ↔ name.map asciiLower ∈ hopNames request := by
  have key : ∀ (n : Nat) (lit : List UInt8), lit.length = n →
      (name.length = n ∧ ieq name lit = true ↔ name.map asciiLower = lit) := by
    rintro n lit rfl
    exact ieq_iff
  unfold hopByHop hopNames
  cases request with
  | true =>
      simp only [if_true, List.cons_append, List.nil_append, List.mem_cons, List.not_mem_nil,
        or_false, true_and]
      rw [← key 10 (cstr "connection") (by decide), ← key 10 (cstr "keep-alive") (by decide),
        ← key 16 (cstr "proxy-connection") (by decide), ← key 7 (cstr "upgrade") (by decide),
        ← key 2 (cstr "te") (by decide), ← key 7 (cstr "trailer") (by decide),
        ← key 6 (cstr "expect") (by decide), ← key 17 (cstr "transfer-encoding") (by decide)]
      repeat' split
      all_goals simp_all
  | false =>
      simp only [Bool.false_eq_true, if_false, List.append_nil, List.mem_cons, List.not_mem_nil,
        or_false, false_and]
      rw [← key 10 (cstr "connection") (by decide), ← key 10 (cstr "keep-alive") (by decide),
        ← key 16 (cstr "proxy-connection") (by decide), ← key 7 (cstr "upgrade") (by decide),
        ← key 2 (cstr "te") (by decide), ← key 7 (cstr "trailer") (by decide)]
      repeat' split
      all_goals simp_all

/-- The name of the lines of a kind, in lower case. -/
def kindName : FieldKind → Option (List UInt8)
  | .host => some (cstr "host")
  | .contentLength => some (cstr "content-length")
  | .transferEncoding => some (cstr "transfer-encoding")
  | .connection => some (cstr "connection")
  | .other => none

theorem kind_name {f : HeaderField} {n : List UInt8} (h : kindName f.kind = some n) :
    f.name.map asciiLower = n := by
  have key : ∀ (m : Nat) (lit : List UInt8), lit.map asciiLower = lit → lit.length = m →
      f.name.length = m ∧ asciiIeq f.name lit = true → f.name.map asciiLower = lit := by
    rintro m lit hlow rfl ⟨hlen, hieq⟩
    exact (asciiIeq_iff hlow hlen).1 hieq
  unfold HeaderField.kind fieldKind at h
  split at h
  · rw [← Option.some.inj h]
    refine key 4 _ (by decide) (by decide) ?_
    assumption
  split at h
  · rw [← Option.some.inj h]
    refine key 14 _ (by decide) (by decide) ?_
    assumption
  split at h
  · rw [← Option.some.inj h]
    refine key 17 _ (by decide) (by decide) ?_
    assumption
  split at h
  · rw [← Option.some.inj h]
    refine key 10 _ (by decide) (by decide) ?_
    assumption
  · cases h

/-- Whether a line of a kind is dropped. -/
theorem hop_of_kind {f : HeaderField} {n : List UInt8} (h : kindName f.kind = some n) :
    hopByHop f.name true = true ↔ n ∈ hopNames true := by
  rw [hopByHop_iff, kind_name h]

/-- The Host field is forwarded. -/
theorem not_hop_of_host {f : HeaderField} (hk : f.kind = .host) : hopByHop f.name true = false := by
  rw [← Bool.not_eq_true, hop_of_kind (n := cstr "host") (by rw [hk]; rfl)]
  decide

/-- So is the Content-Length field. -/
theorem not_hop_of_contentLength {f : HeaderField} (hk : f.kind = .contentLength) :
    hopByHop f.name true = false := by
  rw [← Bool.not_eq_true, hop_of_kind (n := cstr "content-length") (by rw [hk]; rfl)]
  decide

/-! ## The forwarded head -/

/-- `Connection: keep-alive`. -/
def keepField : HeaderField where
  name := cstr "Connection"
  lead := cstr " "
  value := cstr "keep-alive"
  trail := []
  name_ne := by decide
  name_tchar := by decide
  lead_ows := by decide
  trail_ows := by decide
  value_vchar := by decide
  value_trimmed := by decide

/-- The head that is sent to the upstream. -/
def forwardedHead (hd : Head) : Head :=
  { hd with fields := forwardedFields hd.fields ++ [keepField] }

/-- The forwarded head ends with `Connection: keep-alive`. -/
theorem forwardedHead_render (hd : Head) : (forwardedHead hd).render =
    hd.requestLine ++ CRLF ++ renderFields (forwardedFields hd.fields) ++ CONNECTION_KEEP := by
  have hkeep : renderFields [keepField] ++ CRLF = CONNECTION_KEEP := by decide
  have hfields : renderFields (forwardedFields hd.fields ++ [keepField]) =
      renderFields (forwardedFields hd.fields) ++ renderFields [keepField] :=
    List.flatMap_append
  show hd.requestLine ++ CRLF ++ renderFields (forwardedFields hd.fields ++ [keepField]) ++ CRLF = _
  rw [hfields, ← hkeep]
  simp only [List.append_assoc]

section Forwarded

variable {hd : Head}

/-- The lines of a kind that is not dropped. -/
theorem mem_forwarded_iff {f : HeaderField} (hop : hopByHop f.name true = false)
    (hkeep : f.kind ≠ .connection) : f ∈ (forwardedHead hd).fields ↔ f ∈ hd.fields := by
  have hne : f ≠ keepField := by
    rintro rfl
    exact hkeep (by decide)
  show f ∈ forwardedFields hd.fields ++ [keepField] ↔ _
  simp [forwardedFields, hop, hne]

/-- A kind of field that is forwarded is as frequent as before. -/
theorem count_forwarded {k : FieldKind} (hkeep : k ≠ .connection)
    (hop : ∀ f : HeaderField, f.kind = k → hopByHop f.name true = false) :
    (forwardedHead hd).count k = hd.count k := by
  have hlast : keepField.kind ≠ k := fun h => hkeep (h.symm.trans (by decide))
  show ((forwardedFields hd.fields ++ [keepField]).filter fun f => decide (f.kind = k)).length =
    (hd.fields.filter fun f => decide (f.kind = k)).length
  have hnil : [keepField].filter (fun f => decide (f.kind = k)) = [] := by
    rw [List.filter_singleton, decide_eq_false hlast]
    rfl
  rw [List.filter_append, hnil, List.append_nil]
  unfold forwardedFields
  rw [List.filter_filter]
  congr 1
  apply List.filter_congr
  intro f _
  by_cases hk : f.kind = k
  · simp [hk, hop f hk]
  · simp [hk]

theorem count_host_forwarded : (forwardedHead hd).count .host = hd.count .host :=
  count_forwarded nofun fun _ => not_hop_of_host

theorem count_length_forwarded :
    (forwardedHead hd).count .contentLength = hd.count .contentLength :=
  count_forwarded nofun fun _ => not_hop_of_contentLength

/-- No Transfer-Encoding field is forwarded. -/
theorem count_transfer_forwarded : (forwardedHead hd).count .transferEncoding = 0 := by
  apply countKind_eq_zero.2
  intro f hf hk
  have hmem : f ∈ forwardedFields hd.fields ++ [keepField] := hf
  rcases List.mem_append.1 hmem with hf | hf
  · have hop := (List.mem_filter.1 hf).2
    have hname : hopByHop f.name true = true := by
      rw [hop_of_kind (n := cstr "transfer-encoding") (by rw [hk]; rfl)]
      decide
    rw [hname] at hop
    cases hop
  · rw [List.mem_singleton.1 hf] at hk
    exact absurd hk (by decide)

/-- The Host field is the one of the request. -/
theorem mem_host_forwarded {f : HeaderField} (hk : f.kind = .host) :
    f ∈ (forwardedHead hd).fields ↔ f ∈ hd.fields :=
  mem_forwarded_iff (not_hop_of_host hk) (by rw [hk]; exact nofun)

/-- So is the Content-Length field. -/
theorem mem_length_forwarded {f : HeaderField} (hk : f.kind = .contentLength) :
    f ∈ (forwardedHead hd).fields ↔ f ∈ hd.fields :=
  mem_forwarded_iff (not_hop_of_contentLength hk) (by rw [hk]; exact nofun)

/-- The rules across lines hold of the forwarded lines. -/
theorem forwardedHead_rules (hr : hd.Rules) : (forwardedHead hd).Rules := by
  constructor
  case host_once =>
    rw [count_host_forwarded]
    exact hr.host_once
  case host_valid => exact fun f hf hk => hr.host_valid f ((mem_host_forwarded hk).1 hf) hk
  case length_once =>
    rw [count_length_forwarded]
    exact hr.length_once
  case length_valid => exact fun f hf hk => hr.length_valid f ((mem_length_forwarded hk).1 hf) hk
  case host_present =>
    intro hm
    rw [count_host_forwarded]
    exact hr.host_present hm
  case transfer_alone =>
    intro ht
    rw [count_transfer_forwarded] at ht
    cases ht

end Forwarded

/-! ## The result -/

/-- The head `hdr` with the record `req'` says the request that `buf` with `req` says, on
the lines of `buf` without the hop-by-hop ones and with one Connection line behind them. -/
structure Forwards (buf : List UInt8) (req : HttpRequest) (hdr : List UInt8)
    (req' : HttpRequest) : Prop where
  consumed : req'.headerBytes = hdr.length
  method : req'.method = req.method
  version : req'.minorVersion = req.minorVersion
  target : req'.target.bytes hdr = req.target.bytes buf
  path : req'.path.bytes hdr = req.path.bytes buf
  query : req'.query.bytes hdr = req.query.bytes buf
  host : req'.host.bytes hdr = req.host.bytes buf
  hasLength : req'.flags.contentLength = req.flags.contentLength
  contentLength : req'.contentLength = req.contentLength
  lines : ∃ c : HeadLines, c.Of (buf.take req.headerBytes) ∧ HeadLines.Of { c with
    fields := (c.fields.filter fun f => f.name.map asciiLower ∉ hopNames true) ++ [keepField] } hdr
  connection : ∀ c : HeadLines, c.Of hdr → countKind .connection c.fields = 1

theorem forwardedFields_eq (fs : List HeaderField) : forwardedFields fs =
    fs.filter fun f => f.name.map asciiLower ∉ hopNames true := by
  unfold forwardedFields
  apply List.filter_congr
  intro f _
  have hiff := hopByHop_iff f.name true
  by_cases hop : hopByHop f.name true = true
  · simp [hop, hiff.1 hop]
  · simp [hop, mt hiff.2 hop]

/-- There is one Connection field, the proxy's own. -/
theorem countKind_connection_forwarded (fs : List HeaderField) :
    countKind .connection (forwardedFields fs ++ [keepField]) = 1 := by
  have hnone : (forwardedFields fs).filter (fun f => decide (f.kind = .connection)) = [] := by
    apply List.filter_eq_nil_iff.2
    intro f hf hk
    have hop := (List.mem_filter.1 hf).2
    have hname : hopByHop f.name true = true := by
      rw [hop_of_kind (n := cstr "connection") (by rw [of_decide_eq_true hk]; rfl)]
      decide
    rw [hname] at hop
    cases hop
  unfold countKind
  rw [List.filter_append, hnone]
  decide

/-- An accepted head forwards to an accepted head. -/
theorem forwards_of_accepted {buf hdr : List UInt8} {req req' : HttpRequest} {hd : Head}
    (h : AcceptedHead buf req hd) (h' : AcceptedHead hdr req' (forwardedHead hd))
    (hhdr : hdr = (forwardedHead hd).render) : Forwards buf req hdr req' := by
  obtain ⟨hmethod, hminor, hpath, hquery⟩ := line_same h
  obtain ⟨hmethod', hminor', hpath', hquery'⟩ := line_same h'
  have hcan : (headLines (forwardedHead hd)).Of hdr := by
    rw [hhdr]
    exact headLines_of h'.canonical
  constructor
  case consumed =>
    rw [h'.headerBytes_eq, hhdr]
  case method => rw [hmethod', hmethod]; rfl
  case version => rw [hminor', hminor]; rfl
  case target =>
    rw [target_bytes h', target_bytes h]
    rfl
  case path =>
    rw [slice_bytes h' h'.slices.1, slice_bytes h h.slices.1, hpath', hpath]
    rfl
  case query =>
    rw [slice_bytes h' h'.slices.2, slice_bytes h h.slices.2, hquery', hquery]
    rfl
  case host =>
    by_cases hc : hd.count .host = 0
    · rw [host_bytes_absent h hc, host_bytes_absent h' (count_host_forwarded.trans hc)]
    · obtain ⟨f, hf, hk⟩ := countKind_pos.1 (Nat.pos_of_ne_zero hc)
      rw [host_bytes h hf hk, host_bytes h' ((mem_host_forwarded hk).2 hf) hk]
  case hasLength => rw [h'.contentLength_flag, h.contentLength_flag, count_length_forwarded]
  case contentLength =>
    by_cases hc : hd.count .contentLength = 0
    · rw [contentLength_absent h hc, contentLength_absent h' (count_length_forwarded.trans hc)]
    · obtain ⟨f, hf, hk⟩ := countKind_pos.1 (Nat.pos_of_ne_zero hc)
      have hv := contentLength_value h hf hk
      rw [contentLength_value h' ((mem_length_forwarded hk).2 hf) hk] at hv
      exact Option.some.inj hv
  case lines =>
    refine ⟨headLines hd, ?_, ?_⟩
    · rw [h.take_headerBytes]
      exact headLines_of h.canonical
    · show HeadLines.Of ⟨hd.method, hd.target.bytes, hd.minor, (hd.fields.filter _) ++ [keepField]⟩ hdr
      rw [← forwardedFields_eq]
      exact hcan
  case connection =>
    intro c hc
    rw [HeadLines.unique hc hcan]
    exact countKind_connection_forwarded hd.fields

/-- The forwarded head is longer by the Connection line at most. -/
theorem forwardedHead_length (hd : Head) :
    (forwardedHead hd).render.length ≤ hd.render.length + CONNECTION_KEEP.length := by
  have hsub : (renderFields (forwardedFields hd.fields)).length ≤
      (renderFields hd.fields).length := renderFields_filter_le _ _
  have hline : (hd.requestLine ++ CRLF).length = hd.blockOff := by
    rw [List.length_append]
    rfl
  have hlen := hd.render_length
  rw [forwardedHead_render, List.length_append, List.length_append, hline]
  omega

/-- A head that fits the header buffer is rewritten. -/
theorem rewriteRequest_accepted {buf : List UInt8} {req : HttpRequest} {hd : Head}
    (hacc : AcceptedHead buf req hd) (hle : req.headerBytes ≤ 4096) :
    rewriteRequest (buf.take req.headerBytes) = some (forwardedHead hd).render := by
  have hlen : hd.render.length ≤ 4096 := by
    rw [← hacc.headerBytes_eq]
    exact hle
  have hkeep : CONNECTION_KEEP.length = 26 := by decide
  have hfit : hd.render.length + CONNECTION_KEEP.length ≤ PROXY_HDR_MAX := by
    unfold PROXY_HDR_MAX
    omega
  rw [hacc.take_headerBytes, forwardedHead_render]
  exact rewriteRequest_fits hd hfit

/-- Every accepted head that fits the header buffer is rewritten to a head that the parser
accepts as the same request. -/
theorem rewriteRequest_reparsed {buf : List UInt8} {req : HttpRequest}
    (h : httpParseRequest buf = .ok req) (hle : req.headerBytes ≤ 4096) :
    ∃ hdr req', rewriteRequest (buf.take req.headerBytes) = some hdr ∧
      httpParseRequest hdr = .ok req' ∧ Forwards buf req hdr req' := by
  obtain ⟨hd, hacc⟩ := exists_head_of_accept h
  have hlen : hd.render.length ≤ 4096 := by
    rw [← hacc.headerBytes_eq]
    exact hle
  have hkeep : CONNECTION_KEEP.length = 26 := by decide
  have hgrown := forwardedHead_length hd
  have hshort : (forwardedHead hd).render.length ≤ HTTP_PARSE_MAX_LEN := by
    unfold HTTP_PARSE_MAX_LEN
    omega
  obtain ⟨req', hparse, hres⟩ := parse_render_ok (forwardedHead_rules hacc.rules)
    count_transfer_forwarded []
  rw [List.append_nil] at hparse
  refine ⟨(forwardedHead hd).render, req', rewriteRequest_accepted hacc hle, ?_, ?_⟩
  · rw [httpParseRequest_of_le hshort]
    exact hparse
  · refine forwards_of_accepted hacc ?_ rfl
    constructor
    case canonical =>
      intro f hf
      rcases List.mem_append.1 (show f ∈ forwardedFields hd.fields ++ [keepField] from hf) with
        hf | hf
      · exact hacc.canonical f (List.mem_filter.1 hf).1
      · rw [List.mem_singleton.1 hf]
        exact fun _ => rfl
    case rules => exact forwardedHead_rules hacc.rules
    case no_transfer => exact count_transfer_forwarded
    case short => exact hshort
    case starts => exact List.prefix_refl _
    case result => exact hres

/-- A GET whose Keep-Alive and Connection lines are dropped. -/
def hopRequest : List UInt8 :=
  cstr "GET /a?b HTTP/1.1\r\nKeep-Alive: 5\r\nHost: x\r\nconnection: close\r\n\r\n"

/-- The record of that request. -/
def hopRecord : HttpRequest := (httpParseRequest hopRequest).toOption.getD .zero

/-- A request with hop-by-hop fields. -/
theorem rewriteRequest_reparsed_hop :
    ∃ hdr req', rewriteRequest (hopRequest.take hopRecord.headerBytes) = some hdr ∧
      httpParseRequest hdr = .ok req' ∧ Forwards hopRequest hopRecord hdr req' :=
  rewriteRequest_reparsed (by decide) (by decide)

end TinyServer.Proxy
