import TinyServer.Http.Accepted
import TinyServer.Http.Cuts
import TinyServer.Lib.Messages

/-!
# A stream of request heads

A client sends one head after the other. `decodeHead` says which words are a head that
`http_parse_request` accepts and uses up. No such head is a proper prefix of another
(`prefixFree_decodeHead`), so a stream of heads can be read in one way only.
-/

set_option autoImplicit false

namespace TinyServer.Http

open TinyServer.Lib

/-- The word is a request head that is accepted, all of it. -/
def decodeHead (p : List UInt8) : Option HttpRequest :=
  match httpParseRequest p with
  | .ok req => if req.headerBytes = p.length then some req else none
  | .error _ => none

/-- A head is decoded by itself, with nothing after it. -/
theorem decodeHead_iff {p : List UInt8} {req : HttpRequest} :
    decodeHead p = some req ↔ httpParseRequest p = .ok req ∧ req.headerBytes = p.length := by
  unfold decodeHead
  constructor
  · intro h
    split at h
    · rename_i req' hparse
      split at h
      · rename_i hlen
        cases h
        exact ⟨hparse, hlen⟩
      · cases h
    · cases h
  · rintro ⟨hparse, hlen⟩
    rw [hparse]
    exact if_pos hlen

section Accepted

variable {buf : List UInt8} {req : HttpRequest}

/-- An accepted head is accepted again, with the same record, whatever follows it. -/
theorem httpParseRequest_take (h : httpParseRequest buf = .ok req) (tail : List UInt8) :
    httpParseRequest (buf.take req.headerBytes ++ tail) = .ok req := by
  obtain ⟨hd, ha⟩ := exists_head_of_accept h
  -- on a rendered head `parse` does not look at what follows
  have hsame : ∀ t t', parse (hd.render ++ t) .zero = parse (hd.render ++ t') .zero := by
    intro t t'
    rw [parse_render, parse_render]
  have hcap : ∀ t, httpParseRequest (hd.render ++ t) = .ok req ↔
      parse (hd.render ++ []) .zero = .ok req := by
    intro t
    by_cases hle : (hd.render ++ t).length ≤ HTTP_PARSE_MAX_LEN
    · rw [httpParseRequest_of_le hle, hsame t []]
    · rw [httpParseRequest_of_lt (by omega), List.take_append, List.take_of_length_le ha.short,
        hsame _ []]
      cases parse (hd.render ++ []) .zero with
      | ok r => rfl
      | error e => cases e <;> simp
  obtain ⟨rest, hrest⟩ := ha.starts
  rw [← hrest] at h
  rw [ha.take_headerBytes]
  exact (hcap tail).2 ((hcap rest).1 h)

theorem headerBytes_le_length (h : httpParseRequest buf = .ok req) : req.headerBytes ≤ buf.length := by
  obtain ⟨hd, ha⟩ := exists_head_of_accept h
  exact ha.headerBytes_le

/-- The head at the front of an accepted buffer. -/
theorem decodeHead_take (h : httpParseRequest buf = .ok req) :
    decodeHead (buf.take req.headerBytes) = some req := by
  have hparse := httpParseRequest_take h []
  rw [List.append_nil] at hparse
  exact decodeHead_iff.2 ⟨hparse, (List.length_take_of_le (headerBytes_le_length h)).symm⟩

end Accepted

/-- A buffer that starts with a head is accepted. -/
theorem httpParseRequest_of_decodeHead {p : List UInt8} {req : HttpRequest}
    (h : decodeHead p = some req) (tail : List UInt8) : httpParseRequest (p ++ tail) = .ok req := by
  obtain ⟨hparse, hlen⟩ := decodeHead_iff.1 h
  have htake := httpParseRequest_take hparse tail
  rwa [hlen, List.take_length] at htake

/-- No head is a proper prefix of another. -/
theorem prefixFree_decodeHead : PrefixFree decodeHead where
  eq_of_prefix := by
    rintro p q m m' hp hq ⟨t, rfl⟩
    have hsame := httpParseRequest_of_decodeHead hp t
    obtain ⟨hparse, hlen⟩ := decodeHead_iff.1 hq
    obtain rfl : m = m' := Except.ok.inj (hsame.symm.trans hparse)
    have hlen' := (decodeHead_iff.1 hp).2
    rw [List.length_append] at hlen
    rw [List.eq_nil_of_length_eq_zero (show t.length = 0 by omega), List.append_nil]
  nil := rfl

/-- A rendered request is a head of its own. -/
theorem AbstractRequest.decodeHead_render (r : AbstractRequest)
    (hlen : r.render.length ≤ HTTP_PARSE_MAX_LEN) : ∃ req, decodeHead r.render = some req ∧
      r.Denotes r.render req := by
  obtain ⟨req, hparse, hres⟩ := parse_render_ok r.rules r.no_transfer []
  have hden := AbstractRequest.denotes_of_headResult hres [] hlen
  rw [List.append_nil] at hparse
  have hparse' : httpParseRequest r.render = .ok req := by
    rw [httpParseRequest_of_le hlen]
    exact hparse
  rw [List.append_nil] at hden
  exact ⟨req, decodeHead_iff.2 ⟨hparse', hden.headerBytes⟩, hden⟩

end TinyServer.Http
