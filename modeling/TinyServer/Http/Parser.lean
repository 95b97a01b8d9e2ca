import TinyServer.Http.Chars

/-!
# The request parser (`http_parser.c`)

A pointer into the request buffer is an offset together with the list of bytes
from there to the end of the range the function was given. A function that
returns `HTTP_PARSE_BAD`, `HTTP_PARSE_INCOMPLETE` or `HTTP_PARSE_UNSUPPORTED`
returns the matching `ParseError`; on success it returns the request record the
C code fills in. What a failing call leaves in the record is not modelled: every
caller drops the record on failure, and the next call clears it first.
-/

set_option autoImplicit false

namespace TinyServer.Http

/-- The negative results of `http_parse_request`. -/
inductive ParseError where
  | bad
  | incomplete
  | unsupported
  deriving DecidableEq, Repr

/-- `http_method`. -/
inductive HttpMethod where
  | unknown
  | get
  | post
  | head
  | put
  | delete
  deriving DecidableEq, Repr

/-- `http_slice`: a part of the header buffer. -/
structure HttpSlice where
  off : Nat
  len : Nat
  deriving DecidableEq, Repr

/-- The four `HTTP_FLAG_*` bits of `http_request.flags`. -/
structure HttpFlags where
  connectionClose : Bool
  connectionKeepAlive : Bool
  transferEncoding : Bool
  contentLength : Bool
  deriving DecidableEq, Repr

/-- `http_request`. -/
structure HttpRequest where
  target : HttpSlice
  path : HttpSlice
  query : HttpSlice
  host : HttpSlice
  headerBlock : HttpSlice
  contentLength : Nat
  headerBytes : Nat
  method : HttpMethod
  minorVersion : Nat
  flags : HttpFlags
  deriving DecidableEq, Repr

/-- `memset(req, 0, sizeof(*req))`. -/
def HttpRequest.zero : HttpRequest where
  target := ⟨0, 0⟩
  path := ⟨0, 0⟩
  query := ⟨0, 0⟩
  host := ⟨0, 0⟩
  headerBlock := ⟨0, 0⟩
  contentLength := 0
  headerBytes := 0
  method := .unknown
  minorVersion := 0
  flags := ⟨false, false, false, false⟩

/-- The `seen` bits of `parse`. -/
structure Seen where
  host : Bool
  contentLength : Bool
  deriving DecidableEq, Repr

/-- The most that an offset of 16 bits reaches. -/
def HTTP_PARSE_MAX_LEN : Nat := 0xFFFF

/-- The greatest value of 32 bits. -/
def UINT32_MAX : Nat := 0xFFFFFFFF

/-- The greatest value of 64 bits. -/
def UINT64_MAX : Nat := 0xFFFFFFFFFFFFFFFF

/-- The cast `(uint16_t)n`. -/
def u16 (n : Nat) : Nat := n % 65536

/-- `find_crlf`: the index of the first CR, which LF must follow. A range without
CR is bad as soon as it holds an LF. -/
def findCrlf (p : List UInt8) : Except ParseError Nat :=
  match memchr p CR with
  | none => if (memchr p LF).isSome then .error .bad else .error .incomplete
  | some cr =>
      if cr + 1 = p.length then .error .incomplete
      else if p[cr + 1]? ≠ some LF then .error .bad
      else .ok cr

/-- `parse_method`. -/
def parseMethod (p : List UInt8) : HttpMethod :=
  if p.length = 3 then
    if p = cstr "GET" then .get else if p = cstr "PUT" then .put else .unknown
  else if p.length = 4 then
    if p = cstr "POST" then .post else if p = cstr "HEAD" then .head else .unknown
  else if p.length = 6 then
    if p = cstr "DELETE" then .delete else .unknown
  else .unknown

/-- The loop of `parse_content_length`, and of `parse_u64` in `proxy.c`, with `v`
the value of the digits read and `max` the largest value of the type. -/
def decimalDigits (max : Nat) : List UInt8 → Nat → Option Nat
  | [], v => some v
  | c :: p, v =>
      if c < 0x30 ∨ 0x39 < c then none
      else if (max - (c.toNat - 0x30)) / 10 < v then none
      else decimalDigits max p (v * 10 + (c.toNat - 0x30))

/-- `parse_content_length`. -/
def parseContentLength (p : List UInt8) : Option Nat :=
  if p.length = 0 then none else decimalDigits UINT32_MAX p 0

/-- One element of the comma-separated list in `parse_connection`. -/
def connectionToken (tok : List UInt8) (flags : HttpFlags) : HttpFlags :=
  if tok.length = 5 ∧ asciiIeq tok (cstr "close") then { flags with connectionClose := true }
  else if tok.length = 10 ∧ asciiIeq tok (cstr "keep-alive") then
    { flags with connectionKeepAlive := true }
  else flags

/-- The loop of `parse_connection`. Each turn drops at least the comma, so the
length of the range bounds the number of turns. -/
def connectionTokens : Nat → List UInt8 → HttpFlags → HttpFlags
  | 0, _, flags => flags
  | n + 1, p, flags =>
      if p = [] then flags
      else
        match memchr p COMMA with
        | none => connectionToken (trimOws p) flags
        | some comma =>
            connectionTokens n (p.drop (comma + 1))
              (connectionToken (trimOws (p.take comma)) flags)

/-- `parse_connection`. -/
def parseConnection (p : List UInt8) (flags : HttpFlags) : HttpFlags :=
  connectionTokens p.length p flags

/-- The three forms at the top of `parse_request_target`: the index where the
path starts, or `none` for an absolute form without a slash. -/
def pathStart (t : List UInt8) : Except ParseError (Option Nat) :=
  if t[0]? = some SLASH then .ok (some 0)
  else if 7 ≤ t.length ∧ asciiIeq t (cstr "http://") then
    .ok ((memchr (t.drop 7) SLASH).map (7 + ·))
  else if 8 ≤ t.length ∧ asciiIeq t (cstr "https://") then
    .ok ((memchr (t.drop 8) SLASH).map (8 + ·))
  else .error .bad

/-- `parse_request_target`: `t` is the range `[target, sp2)` and `off` is
`target - buf`. -/
def parseRequestTarget (off : Nat) (t : List UInt8) (req : HttpRequest) :
    Except ParseError HttpRequest :=
  match pathStart t with
  | .error e => .error e
  | .ok none =>
      -- No path after the authority: length 0 is the sentinel for "/".
      .ok { req with target := ⟨u16 off, u16 t.length⟩, path := ⟨0, 0⟩ }
  | .ok (some start) =>
      let path := t.drop start
      if !path.all isTargetChar then .error .bad
      else
        let req := { req with target := ⟨u16 off, u16 t.length⟩ }
        match memchr path QMARK with
        | some q =>
            .ok { req with
              path := ⟨u16 (off + start), u16 q⟩
              query := ⟨u16 (off + start + (q + 1)), u16 (path.length - (q + 1))⟩ }
        | none => .ok { req with path := ⟨u16 (off + start), u16 path.length⟩ }

/-- The end of `parse_request_line`: `ver` is the range `[sp2 + 1, eol)`. -/
def parseVersion (ver : List UInt8) : Except ParseError Nat :=
  if ver.length ≠ 8 ∨ ver.take 7 ≠ cstr "HTTP/1." then .error .bad
  else if ver[7]? = some 0x31 then .ok 1
  else if ver[7]? = some 0x30 then .ok 0
  else .error .bad

/-- `parse_request_line`: `line` is the range `[line, eol)`, which starts the
buffer. -/
def parseRequestLine (line : List UInt8) (req : HttpRequest) : Except ParseError HttpRequest :=
  match memchr line SP with
  | none => .error .bad
  | some sp1 =>
      -- an empty method
      if sp1 = 0 then .error .bad
      else if !(line.take sp1).all isTchar then .error .bad
      else
        let req := { req with method := parseMethod (line.take sp1) }
        let target := line.drop (sp1 + 1)
        match memchr target SP with
        | none => .error .bad
        | some sp2 =>
            -- an empty target
            if sp2 = 0 then .error .bad
            else
              match parseRequestTarget (sp1 + 1) (target.take sp2) req with
              | .error e => .error e
              | .ok req =>
                  match parseVersion (target.drop (sp2 + 1)) with
                  | .error e => .error e
                  | .ok minor => .ok { req with minorVersion := minor }

/-- The bracketed form of `validate_host`, `p` starting with `[`. -/
def validateHostLiteral (p : List UInt8) : Bool :=
  match memchr p RBRACKET with
  | none => false
  | some rb =>
      if rb = 1 then false
      else
        let after := p.drop (rb + 1)
        if after.length = 0 then true
        else if after[0]? ≠ some COLON ∨ after.length < 2 then false
        else (after.drop 1).all isDigit

/-- The name form of `validate_host`: letters, digits, `.` and `-`, then an
optional `:port` of digits. -/
def validateHostName (p : List UInt8) : Bool :=
  let hostLen := (memchr p COLON).getD p.length
  if hostLen = 0 then false
  else if !(p.take hostLen).all (fun c => isAlpha c || isDigit c || c == DOT || c == DASH) then
    false
  else
    match memchr p COLON with
    | none => true
    | some colon => if p.length ≤ colon + 1 then false else (p.drop (colon + 1)).all isDigit

/-- `validate_host`. -/
def validateHost (p : List UInt8) : Bool :=
  if p.length = 0 then false
  else if !p.all (fun c => 0x21 ≤ c && c ≤ 0x7E) then false
  else if p[0]? = some LBRACKET then validateHostLiteral p
  else validateHostName p

/-- `handle_header`: `val` is the trimmed value and `valOff` is `val - buf`. -/
def handleHeader (name : List UInt8) (valOff : Nat) (val : List UInt8) (req : HttpRequest)
    (seen : Seen) : Except ParseError (HttpRequest × Seen) :=
  if name.length = 4 ∧ asciiIeq name (cstr "host") then
    -- a second `Host`
    if seen.host then .error .bad
    else if !validateHost val then .error .bad
    else .ok ({ req with host := ⟨u16 valOff, u16 val.length⟩ }, { seen with host := true })
  else if name.length = 14 ∧ asciiIeq name (cstr "content-length") then
    -- a second `Content-Length`, even with the same value
    if seen.contentLength then .error .bad
    else
      match parseContentLength val with
      | none => .error .bad
      | some v =>
          .ok ({ req with contentLength := v, flags := { req.flags with contentLength := true } },
            { seen with contentLength := true })
  else if name.length = 17 ∧ asciiIeq name (cstr "transfer-encoding") then
    .ok ({ req with flags := { req.flags with transferEncoding := true } }, seen)
  else if name.length = 10 ∧ asciiIeq name (cstr "connection") then
    .ok ({ req with flags := parseConnection val req.flags }, seen)
  -- any other field is only checked for its bytes
  else .ok (req, seen)

/-- The body of the header loop of `parse` for the non-empty line `[p, eol)`,
with `off` for `p - buf`. -/
def parseHeaderLine (off : Nat) (line : List UInt8) (req : HttpRequest) (seen : Seen) :
    Except ParseError (HttpRequest × Seen) :=
  -- a line that starts with a blank would continue the one before
  if line.head?.any isOws then .error .bad
  else
    match memchr line COLON with
    | none => .error .bad
    | some colon =>
        -- an empty name
        if colon = 0 then .error .bad
        else if !(line.take colon).all isTchar then .error .bad
        else
          let raw := line.drop (colon + 1)
          let val := trimOws raw
          if !val.all isFieldVchar then .error .bad
          else
            handleHeader (line.take colon) (off + (colon + 1) + (raw.takeWhile isOws).length)
              val req seen

/-- The header loop of `parse`, with `off` for `p - buf`. The result holds the
offset of the empty line. Each turn drops at least a CRLF, so the length of the
range bounds the number of turns. -/
def parseHeaders : Nat → Nat → List UInt8 → HttpRequest → Seen →
    Except ParseError (Nat × HttpRequest × Seen)
  | 0, _, _, _, _ => .error .incomplete
  | n + 1, off, p, req, seen =>
      match findCrlf p with
      | .error e => .error e
      | .ok eol =>
          -- the empty line
          if eol = 0 then .ok (off, req, seen)
          else
            match parseHeaderLine off (p.take eol) req seen with
            | .error e => .error e
            | .ok (req, seen) => parseHeaders n (off + (eol + 2)) (p.drop (eol + 2)) req seen

/-- The checks at the end of `parse`, on the offset `off` of the empty line. -/
def parseFinish (off : Nat) (req : HttpRequest) (seen : Seen) : Except ParseError HttpRequest :=
  let req := { req with
    headerBlock := { req.headerBlock with len := u16 (off - req.headerBlock.off) }
    headerBytes := u16 (off + 2) }
  if req.flags.transferEncoding && req.flags.contentLength then .error .bad
  else if req.minorVersion = 1 ∧ seen.host = false then .error .bad
  else if req.flags.transferEncoding then .error .unsupported
  else .ok req

/-- `parse`: the request line, the header fields and the empty line. -/
def parse (buf : List UInt8) (req : HttpRequest) : Except ParseError HttpRequest :=
  match findCrlf buf with
  | .error e => .error e
  | .ok eol =>
      match parseRequestLine (buf.take eol) req with
      | .error e => .error e
      | .ok req =>
          -- the field block starts after the request line
          let req := { req with headerBlock := { req.headerBlock with off := u16 (eol + 2) } }
          let rest := buf.drop (eol + 2)
          match parseHeaders (rest.length + 1) (eol + 2) rest req ⟨false, false⟩ with
          | .error e => .error e
          | .ok (off, req, seen) => parseFinish off req seen

/-- `http_parse_request`. The C function returns `req->header_bytes` on success;
here that is the field `headerBytes` of the result. -/
def httpParseRequest (buf : List UInt8) : Except ParseError HttpRequest :=
  if buf.length = 0 then .error .incomplete
  else if HTTP_PARSE_MAX_LEN < buf.length then
    match parse (buf.take HTTP_PARSE_MAX_LEN) .zero with
    | .error .incomplete => .error .bad
    | r => r
  else parse buf .zero

example :
    (httpParseRequest (cstr "GET /a?b HTTP/1.1\r\nHost: x\r\n\r\n")).toOption.map
      (fun r => (r.headerBytes, r.path, r.query, r.host)) =
        some (30, ⟨4, 2⟩, ⟨7, 1⟩, ⟨25, 1⟩) := by
  decide

end TinyServer.Http
