import TinyServer.Proxy.State

/-!
# Rewriting heads (`proxy.c`)

`rewrite_request` and `rewrite_response` copy a head into `px->hdr` without its
hop-by-hop lines and end it with a Connection line of their own. A failing call
returns nothing: both callers drop the slot's proxy state.
-/

set_option autoImplicit false

namespace TinyServer.Proxy

open TinyServer.Http

/-- `ieq(a, b, n)` with `b` the `n` bytes of a lower-case literal. -/
def ieq (a b : List UInt8) : Bool := (a.take b.length).map asciiLower == b

/-- `find_crlf` of `proxy.c`: the index of the first CR LF. -/
def findCrlf : List UInt8 → Option Nat
  | a :: b :: p => if a = CR ∧ b = LF then some 0 else (findCrlf (b :: p)).map (· + 1)
  | _ => none

/-- `hop_by_hop`. -/
def hopByHop (name : List UInt8) (request : Bool) : Bool :=
  if name.length = 10 ∧ ieq name (cstr "connection") then true
  else if name.length = 10 ∧ ieq name (cstr "keep-alive") then true
  else if name.length = 16 ∧ ieq name (cstr "proxy-connection") then true
  else if name.length = 7 ∧ ieq name (cstr "upgrade") then true
  else if name.length = 2 ∧ ieq name (cstr "te") then true
  else if name.length = 7 ∧ ieq name (cstr "trailer") then true
  else if request ∧ name.length = 6 ∧ ieq name (cstr "expect") then true
  else if request ∧ name.length = 17 ∧ ieq name (cstr "transfer-encoding") then true
  else false

/-- `append_bytes` into `px->hdr`. -/
def appendBytes (dst s : List UInt8) : Option (List UInt8) :=
  if PROXY_HDR_MAX - dst.length < s.length then none else some (dst ++ s)

/-! ## Requests -/

/-- The header loop of `rewrite_request`, with `p` the bytes up to `end`. Each
turn drops at least a CRLF, so the length of the range bounds the turns. -/
def rewriteLines : Nat → List UInt8 → List UInt8 → Option (List UInt8)
  | 0, _, dst => some dst
  | n + 1, p, dst =>
      -- `while (p < end)` up to the empty line
      if p = [] ∨ CRLF <+: p then some dst
      else
        match findCrlf p with
        | none => none
        | some eol =>
            match memchr (p.take eol) COLON with
            | none => none
            | some colon =>
                -- a hop-by-hop field is not forwarded
                if hopByHop (p.take colon) true then rewriteLines n (p.drop (eol + 2)) dst
                else
                  -- the line is copied with its CRLF
                  match appendBytes dst (p.take (eol + 2)) with
                  | none => none
                  | some dst => rewriteLines n (p.drop (eol + 2)) dst

/-- `rewrite_request` on the `header_bytes` bytes at `hc->buf`: the new `px->hdr`. -/
def rewriteRequest (head : List UInt8) : Option (List UInt8) :=
  match findCrlf head with
  | none => none
  | some eol =>
      match appendBytes [] (head.take (eol + 2)) with
      | none => none
      | some dst =>
          match rewriteLines head.length (head.drop (eol + 2)) dst with
          | none => none
          | some dst => appendBytes dst CONNECTION_KEEP

/-- The loop of `expects_continue` over the header block. -/
def expectsLines : Nat → List UInt8 → Bool
  | 0, _ => false
  | n + 1, p =>
      match findCrlf p with
      | none => false
      | some eol =>
          let here := match memchr (p.take eol) COLON with
            | none => false
            | some colon =>
                let v := trimOws ((p.take eol).drop (colon + 1))
                colon == 6 && ieq p (cstr "expect") && v.length == 12 &&
                  ieq v (cstr "100-continue")
          here || expectsLines n (p.drop (eol + 2))

/-- `expects_continue`. -/
def expectsContinue (hc : HttpConn) : Bool :=
  let block := (hc.buf.drop hc.req.headerBlock.off).take hc.req.headerBlock.len
  expectsLines block.length block

/-! ## Responses -/

/-- `parse_u64`. -/
def parseU64 (p : List UInt8) : Option Nat :=
  if p.length = 0 then none else decimalDigits UINT64_MAX p 0

/-- `value_is_chunked`. -/
def valueIsChunked (v : List UInt8) : Bool :=
  let v := trimOws v
  v.length == 7 && ieq v (cstr "chunked")

/-- `header_has_token`. Each turn consumes at least one byte. -/
def headerHasTokenLoop : Nat → List UInt8 → List UInt8 → Bool
  | 0, _, _ => false
  | n + 1, v, tok =>
      if v = [] then false
      else
        let v := v.dropWhile fun c => isOws c || c == COMMA
        let item := v.takeWhile (· != COMMA)
        let item' := item.rdropWhile isOws
        (item'.length == tok.length && ieq item' tok) ||
          headerHasTokenLoop n (v.drop item.length) tok

/-- `header_has_token`. -/
def headerHasToken (v tok : List UInt8) : Bool := headerHasTokenLoop v.length v tok

/-- The status code of a status line that `rewrite_response` accepts. -/
def statusCode (line : List UInt8) : Option Nat :=
  -- too short, or not a status line of HTTP/1.x
  if line.length < 12 ∨ line.take 7 ≠ cstr "HTTP/1." then none
  else
    match memchr line SP with
    | none => none
    | some sp =>
        match line.drop (sp + 1) with
        | a :: b :: c :: rest =>
            if !(isDigit a && isDigit b && isDigit c) then none
            -- more than three digits
            else if rest.head?.any (fun d => d != SP && d != CR) then none
            else some ((a.toNat - 0x30) * 100 + (b.toNat - 0x30) * 10 + (c.toNat - 0x30))
        | _ => none

/-- What the header loop of `rewrite_response` has gathered. `contentLength` is
`saw_cl` with the value, `chunked` is `saw_te`. -/
structure ResponseLines where
  hdr : List UInt8
  contentLength : Option Nat
  chunked : Bool
  upClose : Bool
  upKeepAlive : Bool
  deriving DecidableEq, Repr

/-- One header line of a response, without the copy into `px->hdr`. -/
def responseLine (name v : List UInt8) (acc : ResponseLines) : Option ResponseLines :=
  if name.length = 14 ∧ ieq name (cstr "content-length") then
    if acc.contentLength.isSome then none
    else (parseU64 v).map fun cl => { acc with contentLength := some cl }
  else if name.length = 17 ∧ ieq name (cstr "transfer-encoding") then
    if acc.chunked ∨ !valueIsChunked v then none else some { acc with chunked := true }
  else if name.length = 10 ∧ ieq name (cstr "connection") then
    some { acc with
      upClose := acc.upClose || headerHasToken v (cstr "close")
      upKeepAlive := acc.upKeepAlive || headerHasToken v (cstr "keep-alive") }
  else some acc

/-- The header loop of `rewrite_response`, with `p` the bytes up to `end`. -/
def responseLines : Nat → List UInt8 → ResponseLines → Option ResponseLines
  | 0, _, acc => some acc
  | n + 1, p, acc =>
      if p.length < 2 ∨ CRLF <+: p then some acc
      else
        match findCrlf p with
        | none => none
        | some eol =>
            match memchr (p.take eol) COLON with
            | none => none
            | some colon =>
                let name := p.take colon
                match responseLine name (trimOws ((p.take eol).drop (colon + 1))) acc with
                | none => none
                | some acc =>
                    -- framing fields are read, then dropped with the hop-by-hop ones
                    if hopByHop name false then responseLines n (p.drop (eol + 2)) acc
                    else
                      match appendBytes acc.hdr (p.take (eol + 2)) with
                      | none => none
                      | some hdr => responseLines n (p.drop (eol + 2)) { acc with hdr := hdr }

/-- The results -1, 1 and 0 of `rewrite_response`. -/
inductive RewriteResult where
  | bad
  | skip
  | final (px : ProxyConn)
  deriving DecidableEq, Repr

/-- What `rewrite_response` stores once the lines are read: the framing, whether
the upstream may be reused, whether the client may send another request, and the
head for the client. -/
def finishResponse (req : HttpRequest) (px : ProxyConn) (code : Nat) (http10 : Bool)
    (acc : ResponseLines) : RewriteResult :=
  -- both framings at once
  if acc.contentLength.isSome ∧ acc.chunked then .bad
  else
    let respLeft := acc.contentLength.getD 0
    let noBody := code = 204 ∨ code = 304
    -- no framing: the body ends with the connection
    let respEof := ¬ noBody ∧ acc.contentLength = none ∧ ¬ acc.chunked
    -- no body at all, or one of length 0
    let bodyDone := noBody ∨ (acc.contentLength.isSome ∧ respLeft = 0)
    let clientKeep := px.flags.clientKeep || httpShouldKeepalive req
    match appendBytes acc.hdr (if clientKeep then CONNECTION_KEEP else CONNECTION_CLOSE) with
    | none => .bad
    | some hdr => .final { px with
        status := code
        respLeft := respLeft
        chunk := .start
        hdrOff := 0
        hdr := hdr
        flags := { px.flags with
          respCl := acc.contentLength.isSome
          respChunked := acc.chunked
          respEof := respEof
          bodyDone := bodyDone
          upClose := px.flags.upClose || acc.upClose || (http10 && !acc.upKeepAlive)
          clientKeep := clientKeep } }

/-- `rewrite_response` on the head `src`, which includes its blank line. -/
def rewriteResponse (req : HttpRequest) (px : ProxyConn) (src : List UInt8) : RewriteResult :=
  match findCrlf src with
  | none => .bad
  | some eol =>
      match statusCode (src.take eol) with
      | none => .bad
      | some code =>
          -- 101 would switch the protocol; any other interim head is skipped
          if 100 ≤ code ∧ code < 200 then if code = 101 then .bad else .skip
          else
            match appendBytes [] (src.take (eol + 2)) with
            | none => .bad
            | some hdr =>
                match responseLines src.length (src.drop (eol + 2))
                  ⟨hdr, none, false, false, false⟩ with
                | none => .bad
                | some acc => finishResponse req px code (src[7]? == some 0x30) acc

/-- `find_hdr_end`: the index of the first CR LF CR LF. -/
def findHdrEnd : List UInt8 → Option Nat
  | [] => none
  | c :: p => if (CRLF ++ CRLF) <+: c :: p then some 0 else (findHdrEnd p).map (· + 1)

/-- The end of a head is in the buffer. -/
theorem findHdrEnd_lt {p : List UInt8} {i : Nat} (h : findHdrEnd p = some i) :
    i + 4 ≤ p.length := by
  induction p generalizing i with
  | nil => cases h
  | cons c p ih =>
      rw [findHdrEnd] at h
      split at h
      · rename_i hpre
        cases h
        have hl : (CRLF ++ CRLF).length ≤ (c :: p).length := hpre.length_le
        exact hl
      · obtain ⟨j, hj, rfl⟩ := Option.map_eq_some_iff.1 h
        have := ih hj
        rw [List.length_cons]
        omega

/-- A head ends at the same place when more bytes follow. -/
theorem findHdrEnd_append {s : List UInt8} (t : List UInt8) : ∀ {i : Nat},
    findHdrEnd s = some i → findHdrEnd (s ++ t) = some i := by
  induction s with
  | nil => exact nofun
  | cons c p ih =>
      intro i h
      have hlen := findHdrEnd_lt h
      rw [findHdrEnd] at h
      rw [List.cons_append, findHdrEnd]
      split at h
      · rename_i hpre
        rw [← Option.some.inj h]
        exact if_pos (hpre.trans (List.prefix_append (c :: p) t))
      · rename_i hpre
        obtain ⟨j, hj, rfl⟩ := Option.map_eq_some_iff.1 h
        rw [if_neg, ih hj]
        · rfl
        · -- The four bytes of a head end already stand in the shorter buffer.
          intro hlong
          refine hpre (List.prefix_of_prefix_length_le hlong (List.prefix_append (c :: p) t) ?_)
          show 4 ≤ (c :: p).length
          omega

end TinyServer.Proxy
