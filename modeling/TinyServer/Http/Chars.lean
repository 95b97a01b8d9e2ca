import Mathlib.Algebra.Group.Nat.Defs
import TinyServer.Lib.Search

/-!
# Bytes and character classes

The byte predicates at the top of `http_parser.c`, the C string literals, and
`memchr`. A `const char *` range `[p, end)` is the list of its bytes, so
`memchr(p, c, end - p)` is an index into that list.
-/

set_option autoImplicit false

namespace TinyServer.Http

/-- A C string literal without its terminating NUL. -/
def cstr (s : String) : List UInt8 := s.toList.map fun c => c.val.toUInt8

/-- Carriage return. -/
abbrev CR : UInt8 := 0x0D

/-- Line feed. -/
abbrev LF : UInt8 := 0x0A

/-- Space. -/
abbrev SP : UInt8 := 0x20

/-- Horizontal tab. -/
abbrev HTAB : UInt8 := 0x09

/-- `'/'`. -/
abbrev SLASH : UInt8 := 0x2F

/-- `'?'`. -/
abbrev QMARK : UInt8 := 0x3F

/-- `':'`. -/
abbrev COLON : UInt8 := 0x3A

/-- `','`. -/
abbrev COMMA : UInt8 := 0x2C

/-- `'['`. -/
abbrev LBRACKET : UInt8 := 0x5B

/-- `']'`. -/
abbrev RBRACKET : UInt8 := 0x5D

/-- `'.'`. -/
abbrev DOT : UInt8 := 0x2E

/-- `'-'`. -/
abbrev DASH : UInt8 := 0x2D

/-- `"\r\n"`. -/
abbrev CRLF : List UInt8 := [CR, LF]

/-- `memchr(p, c, n)` over the `n` bytes `s`: the index of the first `c`. -/
def memchr (s : List UInt8) (c : UInt8) : Option Nat := s.idxOf? c

/-- `ascii_lower`. -/
def asciiLower (c : UInt8) : UInt8 :=
  if 0x41 ≤ c ∧ c ≤ 0x5A then c + 0x20 else c

/-- `ascii_ieq(a, b, n)` with `b` the `n` bytes of a literal and `a` at least
`n` bytes long. -/
def asciiIeq (a b : List UInt8) : Bool :=
  (a.take b.length).map asciiLower == b.map asciiLower

/-- An ASCII digit. -/
def isDigit (c : UInt8) : Bool := 0x30 ≤ c && c ≤ 0x39

/-- An ASCII letter. -/
def isAlpha (c : UInt8) : Bool := (0x61 ≤ c && c ≤ 0x7A) || (0x41 ≤ c && c ≤ 0x5A)

/-- The punctuation of `is_tchar`: `! # $ % & ' * + - . ^ _ 0x60 | ~`. -/
def tcharPunct : List UInt8 :=
  [0x21, 0x23, 0x24, 0x25, 0x26, 0x27, 0x2A, 0x2B, 0x2D, 0x2E, 0x5E, 0x5F, 0x60, 0x7C, 0x7E]

/-- `is_tchar`: a character of a token. -/
def isTchar (c : UInt8) : Bool := isAlpha c || isDigit c || tcharPunct.contains c

/-- `is_field_vchar`: a character of a field value; bytes from 0x80 on are let through. -/
def isFieldVchar (c : UInt8) : Bool := c == HTAB || (0x20 ≤ c && c != 0x7F)

/-- `is_target_char`: a visible ASCII character. -/
def isTargetChar (c : UInt8) : Bool := 0x20 < c && c < 0x7F

/-- `is_ows`: optional white space. -/
def isOws (c : UInt8) : Bool := c == SP || c == HTAB

/-- The two trimming loops around a value: advance `val` over `is_ows`, then
retreat `val_end` over `is_ows`. -/
def trimOws (s : List UInt8) : List UInt8 := Lib.trim isOws s

/-! ## Which classes exclude which bytes -/

/-- A character of a token differs from any that is none. -/
theorem isTchar_ne {c d : UInt8} (h : isTchar c = true) (hd : isTchar d = false) : c ≠ d := by
  rintro rfl
  simp [h] at hd

theorem not_mem_of_all_isTchar {s : List UInt8} (h : s.all isTchar = true) {d : UInt8}
    (hd : isTchar d = false) : d ∉ s := by
  intro hm
  have := List.all_eq_true.1 h d hm
  simp [hd] at this

end TinyServer.Http
