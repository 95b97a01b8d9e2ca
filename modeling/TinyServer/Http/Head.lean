import TinyServer.Http.Parser

/-!
# Request heads as structured data

The abstract side of the parser: a request head is a request line, a list of
header lines and the cross-header rules. A `HeaderField` or a `Target` carries
the proofs of its own well-formedness, so a line the parser could not accept
cannot be built. `Head.render` gives the bytes.

`Target.absolute` puts no condition on the bytes of the authority except the
delimiters that would end it, because `parse_request_target` puts none.
-/

set_option autoImplicit false

namespace TinyServer.Http

/-! ## Header lines -/

/-- A header line `name ":" lead value trail`, without its CRLF. -/
@[ext] structure HeaderField where
  name : List UInt8
  lead : List UInt8
  value : List UInt8
  trail : List UInt8
  name_ne : name ≠ []
  name_tchar : name.all isTchar = true
  lead_ows : lead.all isOws = true
  trail_ows : trail.all isOws = true
  value_vchar : value.all isFieldVchar = true
  value_trimmed : trimOws value = value

/-- The headers `handle_header` looks at. -/
inductive FieldKind where
  | host
  | contentLength
  | transferEncoding
  | connection
  | other
  deriving DecidableEq, Repr

/-- The kind of a header field, by its name. -/
def fieldKind (name : List UInt8) : FieldKind :=
  if name.length = 4 ∧ asciiIeq name (cstr "host") then .host
  else if name.length = 14 ∧ asciiIeq name (cstr "content-length") then .contentLength
  else if name.length = 17 ∧ asciiIeq name (cstr "transfer-encoding") then .transferEncoding
  else if name.length = 10 ∧ asciiIeq name (cstr "connection") then .connection
  else .other

namespace HeaderField

/-- What the parser takes the field for. -/
def kind (f : HeaderField) : FieldKind := fieldKind f.name

/-- What follows the colon. -/
def raw (f : HeaderField) : List UInt8 := f.lead ++ f.value ++ f.trail

/-- The line of the field, with its white space. -/
def line (f : HeaderField) : List UInt8 := f.name ++ COLON :: f.raw

/-- The line and its end. -/
def render (f : HeaderField) : List UInt8 := f.line ++ CRLF

/-- The offset of the value when the line starts at `off`. -/
def valueOff (f : HeaderField) (off : Nat) : Nat :=
  off + (f.name.length + 1) + (f.raw.takeWhile isOws).length

/-- The white space around an empty value is all leading white space. Every line
has exactly one canonical form. -/
def Canonical (f : HeaderField) : Prop := f.value = [] → f.trail = []

end HeaderField

/-- The lines of the fields. -/
def renderFields (fs : List HeaderField) : List UInt8 := fs.flatMap HeaderField.render

@[simp] theorem renderFields_nil : renderFields [] = [] := rfl

@[simp] theorem renderFields_cons (f : HeaderField) (fs : List HeaderField) :
    renderFields (f :: fs) = f.render ++ renderFields fs := rfl

/-! ## Request targets -/

/-- `http://` or `https://` in any letter case. -/
def isScheme (s : List UInt8) : Prop :=
  s.map asciiLower = cstr "http://" ∨ s.map asciiLower = cstr "https://"

/-- The two forms of a request-target that `parse_request_target` accepts. The
path of either form includes the query. -/
inductive Target where
  | origin (path : List UInt8) (path_slash : path.head? = some SLASH)
      (path_chars : path.all isTargetChar = true)
  | absolute (scheme authority path : List UInt8) (scheme_ok : isScheme scheme)
      (authority_delim : ∀ c ∈ authority, c ≠ SLASH ∧ c ≠ SP ∧ c ≠ CR)
      (path_slash : path = [] ∨ path.head? = some SLASH)
      (path_chars : path.all isTargetChar = true)

namespace Target

/-- The target as it is sent. -/
def bytes : Target → List UInt8
  | origin path _ _ => path
  | absolute scheme authority path _ _ _ _ => scheme ++ authority ++ path

/-- The authority of an absolute target, with nothing for the origin form. -/
def authority : Target → List UInt8
  | origin _ _ _ => []
  | absolute _ authority _ _ _ _ _ => authority

end Target

/-! ## Heads -/

/-- A request head: request line and header lines. -/
structure Head where
  method : List UInt8
  target : Target
  minor : Fin 2
  fields : List HeaderField
  method_ne : method ≠ []
  method_tchar : method.all isTchar = true

namespace Head

/-- `HTTP/1.0` or `HTTP/1.1`. -/
def version (minor : Fin 2) : List UInt8 :=
  cstr "HTTP/1." ++ [if minor = 1 then 0x31 else 0x30]

/-- The request line without its end. -/
def requestLine (h : Head) : List UInt8 :=
  h.method ++ SP :: (h.target.bytes ++ SP :: version h.minor)

/-- The head as it is sent. -/
def render (h : Head) : List UInt8 :=
  h.requestLine ++ CRLF ++ renderFields h.fields ++ CRLF

/-- Number of header lines of a kind. -/
def count (h : Head) (k : FieldKind) : Nat := (h.fields.filter (·.kind = k)).length

/-- The rules `parse` and `handle_header` impose across header lines. -/
structure Rules (h : Head) : Prop where
  host_once : h.count .host ≤ 1
  host_valid : ∀ f ∈ h.fields, f.kind = .host → validateHost f.value = true
  length_once : h.count .contentLength ≤ 1
  length_valid : ∀ f ∈ h.fields, f.kind = .contentLength →
    (parseContentLength f.value).isSome = true
  host_present : h.minor = 1 → 0 < h.count .host
  transfer_alone : 0 < h.count .transferEncoding → h.count .contentLength = 0

end Head

end TinyServer.Http
