import TinyServer.Http.ParserExact
import TinyServer.Proxy.Rewrite

/-!
# The two readers of a Connection list

`parse_connection` cuts a list at its commas and trims the pieces; `header_has_token` skips
separators and takes the bytes up to the next comma. Both find the tokens that the list
names (`parseConnection_eq`, `headerHasToken_iff`), so that the client side and the upstream
side agree on who closes.
-/

set_option autoImplicit false

namespace TinyServer.Proxy

open TinyServer.Http TinyServer.Lib

variable {v tok : List UInt8}

/-- Blanks in front of a list belong to its first element. -/
theorem hasToken_blank {c : UInt8} (hc : isOws c = true) :
    hasToken (c :: v) tok ↔ hasToken v tok := by
  have hne : c ≠ COMMA := by
    rintro rfl
    cases hc
  have htrim : ∀ a : List UInt8, trimOws (c :: a) = trimOws a := fun a => by
    rw [trimOws, trimOws, trim, trim, List.dropWhile_cons_of_pos hc]
  by_cases hmem : COMMA ∈ v
  · obtain ⟨a, b, rfl, ha⟩ := List.eq_append_cons_of_mem hmem
    have ha' : COMMA ∉ c :: a := List.not_mem_cons_of_ne_of_not_mem hne.symm ha
    rw [← List.cons_append, hasToken_append_comma ha', hasToken_append_comma ha, htrim]
  · rw [hasToken_of_not_mem (List.not_mem_cons_of_ne_of_not_mem hne.symm hmem),
      hasToken_of_not_mem hmem, htrim]

/-- An empty element names nothing. -/
theorem hasToken_comma (htok : tok ≠ []) : hasToken (COMMA :: v) tok ↔ hasToken v tok := by
  have hcut := @hasToken_append_comma [] v tok List.not_mem_nil
  rw [List.nil_append] at hcut
  rw [hcut]
  exact or_iff_right fun h => htok h.symm

/-- Nor do the separators in front of an element. -/
theorem hasToken_dropWhile (htok : tok ≠ []) (v : List UInt8) :
    hasToken (v.dropWhile fun c => isOws c || c == COMMA) tok ↔ hasToken v tok := by
  induction v with
  | nil => exact Iff.rfl
  | cons c v ih =>
      by_cases hc : (isOws c || c == COMMA) = true
      · rw [List.dropWhile_cons_of_pos (p := fun c => isOws c || c == COMMA) hc, ih]
        rcases Bool.or_eq_true_iff.1 hc with hows | hcomma
        · exact (hasToken_blank hows).symm
        · rw [eq_of_beq hcomma]
          exact (hasToken_comma htok).symm
      · rw [List.dropWhile_cons_of_neg (p := fun c => isOws c || c == COMMA) hc]

/-- The first element of a list that begins with no separator, and the rest. -/
theorem hasToken_takeWhile (htok : tok ≠ []) (v : List UInt8) : hasToken v tok ↔
    (trimOws (v.takeWhile (· != COMMA))).map asciiLower = tok ∨
      hasToken (v.drop (v.takeWhile (· != COMMA)).length) tok := by
  by_cases hmem : COMMA ∈ v
  · obtain ⟨a, b, rfl, ha⟩ := List.eq_append_cons_of_mem hmem
    have hall : ∀ c ∈ a, (c != COMMA) = true := fun c hc => by
      simpa using fun he : c = COMMA => ha (he ▸ hc)
    have hstop : (COMMA :: b).takeWhile (· != COMMA) = [] := List.takeWhile_cons_of_neg (by simp)
    rw [List.takeWhile_append_of_pos hall, hstop, List.append_nil, List.drop_left,
      hasToken_append_comma ha, hasToken_comma htok]
  · have hall : ∀ c ∈ v, (c != COMMA) = true := fun c hc => by
      simpa using fun he : c = COMMA => hmem (he ▸ hc)
    rw [List.takeWhile_eq_self_iff.2 hall, List.drop_length, hasToken_of_not_mem hmem]
    exact (or_iff_left (hasToken_nil htok)).symm

/-- The comparison at the end of a turn. -/
theorem ieq_length {a : List UInt8} :
    (a.length == tok.length && ieq a tok) = true ↔ a.map asciiLower = tok := by
  rw [Bool.and_eq_true, beq_iff_eq, ieq, beq_iff_eq]
  constructor
  · rintro ⟨hlen, h⟩
    rwa [← hlen, List.take_length] at h
  · intro h
    have hlen := congrArg List.length h
    rw [List.length_map] at hlen
    rw [← hlen, List.take_length]
    exact ⟨rfl, h⟩

/-- The token loop with enough fuel finds exactly the tokens of the list. -/
theorem headerHasTokenLoop_iff (htok : tok ≠ []) (n : Nat) : ∀ v : List UInt8, v.length ≤ n →
    (headerHasTokenLoop n v tok = true ↔ hasToken v tok) := by
  induction n with
  | zero =>
      intro v hv
      rw [List.length_eq_zero_iff.1 (Nat.le_zero.1 hv)]
      exact ⟨nofun, fun h => absurd h (hasToken_nil htok)⟩
  | succ n ih =>
      intro v hv
      by_cases hnil : v = []
      · rw [hnil, headerHasTokenLoop, if_pos rfl]
        exact ⟨nofun, fun h => absurd h (hasToken_nil htok)⟩
      rw [headerHasTokenLoop, if_neg hnil, ← hasToken_dropWhile htok v]
      have hhead := List.head?_dropWhile_not (fun c => isOws c || c == COMMA) v
      have hlen := (List.dropWhile_suffix (l := v) fun c => isOws c || c == COMMA).length_le
      dsimp only
      generalize v.dropWhile (fun c => isOws c || c == COMMA) = w at hhead hlen
      -- The item begins with no blank, so that its end is all that is trimmed.
      have htrim : (w.takeWhile (· != COMMA)).rdropWhile isOws = trimOws (w.takeWhile (· != COMMA)) := by
        rw [trimOws, trim]
        congr 1
        cases w with
        | nil => rfl
        | cons c w =>
            have hc : ¬ (isOws c || c == COMMA) = true := by simpa using hhead
            rw [Bool.or_eq_true, not_or] at hc
            rw [List.takeWhile_cons_of_pos (by simpa using hc.2), List.dropWhile_cons_of_neg hc.1]
      have hrest : (w.drop (w.takeWhile (· != COMMA)).length).length ≤ n := by
        cases w with
        | nil => exact Nat.zero_le _
        | cons c w =>
            have hc : ¬ (isOws c || c == COMMA) = true := by simpa using hhead
            rw [Bool.or_eq_true, not_or] at hc
            rw [List.takeWhile_cons_of_pos (by simpa using hc.2), List.length_cons, List.drop_succ_cons,
              List.length_drop]
            rw [List.length_cons] at hlen
            omega
      rw [hasToken_takeWhile htok w, Bool.or_eq_true, ieq_length, htrim, ih _ hrest]

/-- `header_has_token` finds the tokens that a list names. -/
theorem headerHasToken_iff (htok : tok ≠ []) : headerHasToken v tok = true ↔ hasToken v tok :=
  headerHasTokenLoop_iff htok v.length v le_rfl

/-- The flags of `parse_connection` are the answers of `header_has_token`, and both say what
the list names. -/
theorem connectionReaders_agree (v : List UInt8) (flags : HttpFlags) :
    parseConnection v flags = { flags with
      connectionClose := flags.connectionClose || headerHasToken v (cstr "close")
      connectionKeepAlive :=
        flags.connectionKeepAlive || headerHasToken v (cstr "keep-alive") } ∧
      (headerHasToken v (cstr "close") = true ↔ hasToken v (cstr "close")) ∧
      (headerHasToken v (cstr "keep-alive") = true ↔ hasToken v (cstr "keep-alive")) := by
  have hclose := @headerHasToken_iff v (cstr "close") (by decide)
  have hkeep := @headerHasToken_iff v (cstr "keep-alive") (by decide)
  have hsame : ∀ {b : Bool} {p : Prop} [Decidable p], (b = true ↔ p) → decide p = b :=
    fun h => Bool.eq_iff_iff.2 (decide_eq_true_iff.trans h.symm)
  refine ⟨?_, hclose, hkeep⟩
  rw [parseConnection_eq, hsame hclose, hsame hkeep]

end TinyServer.Proxy
