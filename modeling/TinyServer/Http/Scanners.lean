import TinyServer.Http.Head

/-!
# What each scanner of the parser accepts

One lemma for each scanner of `http_parser.c`, in both directions: a line found
by `findCrlf`, a header line, the header block, the request-target and the
request line. The rendering of well-formed data is accepted, and whatever is
accepted is the rendering of well-formed data.
-/

set_option autoImplicit false

namespace TinyServer.Http

open TinyServer.Lib

/-! ## Lines -/

/-- `memchr` finds the first of its kind. -/
theorem memchr_append_cons {a b : List UInt8} {c : UInt8} (h : c ∉ a) :
    memchr (a ++ c :: b) c = some a.length := idxOf?_append_cons h

/-- Before what `memchr` finds there is none. -/
theorem memchr_eq_some {s : List UInt8} {c : UInt8} {i : Nat} (h : memchr s c = some i) :
    ∃ a b, s = a ++ c :: b ∧ c ∉ a ∧ a.length = i := idxOf?_eq_some_split h

theorem memchr_eq_none {s : List UInt8} {c : UInt8} : memchr s c = none ↔ c ∉ s := by
  simp [memchr]

theorem memchr_lt {s : List UInt8} {c : UInt8} {i : Nat} (h : memchr s c = some i) :
    i < s.length := by
  obtain ⟨a, b, rfl, -, rfl⟩ := memchr_eq_some h
  rw [List.length_append, List.length_cons]
  omega

/-- `find_crlf` finds the first line end. -/
theorem findCrlf_append {a b : List UInt8} (h : CR ∉ a) :
    findCrlf (a ++ (CRLF ++ b)) = .ok a.length := by
  have hm : memchr (a ++ (CRLF ++ b)) CR = some a.length := memchr_append_cons (b := LF :: b) h
  have hlen : a.length + 1 ≠ (a ++ (CRLF ++ b)).length := by simp
  have hget : (a ++ (CRLF ++ b))[a.length + 1]? = some LF := by
    rw [List.getElem?_append_right (by omega)]
    simp
  simp only [findCrlf, hm, hlen, hget, if_false, ne_eq, not_true]

/-- Before a line end that is found there is no carriage return. -/
theorem findCrlf_ok {p : List UInt8} {i : Nat} (h : findCrlf p = .ok i) :
    ∃ a b, p = a ++ (CRLF ++ b) ∧ CR ∉ a ∧ a.length = i := by
  unfold findCrlf at h
  cases hm : memchr p CR with
  | none =>
      rw [hm] at h
      simp only at h
      split at h <;> cases h
  | some cr =>
      rw [hm] at h
      obtain ⟨a, b, rfl, ha, rfl⟩ := memchr_eq_some hm
      simp only at h
      split at h
      · cases h
      · split at h
        · cases h
        · rename_i hlen hget
          simp only [ne_eq, Decidable.not_not] at hget
          rw [List.getElem?_append_right (by omega)] at hget
          cases h
          cases b with
          | nil => simp at hlen
          | cons x b =>
              simp at hget
              subst hget
              exact ⟨a, b, rfl, ha, rfl⟩

theorem findCrlf_ne_unsupported (p : List UInt8) : findCrlf p ≠ .error .unsupported := by
  unfold findCrlf
  split
  · split <;> exact nofun
  · split
    · exact nofun
    · split <;> exact nofun

/-! ## Header lines -/

theorem all_isOws_ne {s : List UInt8} (h : s.all isOws = true) {d : UInt8}
    (hd : isOws d = false) : d ∉ s := by
  intro hm
  have := List.all_eq_true.1 h d hm
  simp [hd] at this

theorem all_isFieldVchar_ne {s : List UInt8} (h : s.all isFieldVchar = true) {d : UInt8}
    (hd : isFieldVchar d = false) : d ∉ s := by
  intro hm
  have := List.all_eq_true.1 h d hm
  simp [hd] at this

namespace HeaderField

/-- No byte of a header line is a control byte other than HTAB. -/
theorem not_mem_line (f : HeaderField) {d : UInt8} (hc : d ≠ COLON) (ht : isTchar d = false)
    (ho : isOws d = false) (hv : isFieldVchar d = false) : d ∉ f.line := by
  have h1 := not_mem_of_all_isTchar f.name_tchar ht
  have h2 := all_isOws_ne f.lead_ows ho
  have h3 := all_isFieldVchar_ne f.value_vchar hv
  have h4 := all_isOws_ne f.trail_ows ho
  simp [line, raw, h1, h2, h3, h4, hc]

theorem cr_not_mem_line (f : HeaderField) : CR ∉ f.line :=
  f.not_mem_line (by decide) (by decide) (by decide) (by decide)

theorem lf_not_mem_line (f : HeaderField) : LF ∉ f.line :=
  f.not_mem_line (by decide) (by decide) (by decide) (by decide)

theorem colon_not_mem_name (f : HeaderField) : COLON ∉ f.name :=
  not_mem_of_all_isTchar f.name_tchar (by decide)

theorem line_ne_nil (f : HeaderField) : f.line ≠ [] := by simp [line]

/-- The value of a field is what is left without the white space. -/
theorem trimOws_raw (f : HeaderField) : trimOws f.raw = f.value :=
  trim_pad f.lead_ows f.trail_ows f.value_trimmed

theorem render_length (f : HeaderField) : f.render.length = f.line.length + 2 := by
  simp [render]

end HeaderField

theorem isTchar_not_isOws {c : UInt8} (h : isTchar c = true) : isOws c = false := by
  have h1 : c ≠ SP := isTchar_ne h (by decide)
  have h2 : c ≠ HTAB := isTchar_ne h (by decide)
  simp [isOws, h1, h2]

/-- On a well-formed line, the checks of the loop body pass and `handle_header`
sees the name and the trimmed value. -/
theorem parseHeaderLine_line (f : HeaderField) (off : Nat) (req : HttpRequest) (seen : Seen) :
    parseHeaderLine off f.line req seen =
      handleHeader f.name (f.valueOff off) f.value req seen := by
  have hm : memchr f.line COLON = some f.name.length := memchr_append_cons f.colon_not_mem_name
  obtain ⟨c, cs, hname⟩ := List.exists_cons_of_ne_nil f.name_ne
  have hc : isTchar c = true := by
    have := f.name_tchar
    rw [hname] at this
    simp only [List.all_cons, Bool.and_eq_true] at this
    exact this.1
  have hhead : f.line.head?.any isOws = false := by
    simp [HeaderField.line, hname, isTchar_not_isOws hc]
  have hpos : f.name.length ≠ 0 := by simp [hname]
  have htake : f.line.take f.name.length = f.name := by simp [HeaderField.line]
  have hdrop : f.line.drop (f.name.length + 1) = f.raw := by
    simp [HeaderField.line, List.drop_append]
  unfold parseHeaderLine
  rw [if_neg (by simp [hhead]), hm]
  simp only [hpos, if_false, htake, f.name_tchar, Bool.not_true, Bool.false_eq_true, hdrop,
    f.trimOws_raw, f.value_vchar, HeaderField.valueOff]

/-- A line the loop body does not reject is a well-formed header line in
canonical form. -/
theorem exists_field_of_parseHeaderLine {off : Nat} {line : List UInt8} {req : HttpRequest}
    {seen : Seen} {r : HttpRequest × Seen} (h : parseHeaderLine off line req seen = .ok r) :
    ∃ f : HeaderField, f.Canonical ∧ line = f.line := by
  unfold parseHeaderLine at h
  split at h
  · cases h
  cases hm : memchr line COLON with
  | none =>
      rw [hm] at h
      cases h
  | some colon =>
      rw [hm] at h
      obtain ⟨name, raw, rfl, hcolon, rfl⟩ := memchr_eq_some hm
      simp only at h
      split at h
      · cases h
      split at h
      · cases h
      split at h
      · cases h
      rename_i hne hname hval
      have htake : (name ++ COLON :: raw).take name.length = name := by simp
      have hdrop : (name ++ COLON :: raw).drop (name.length + 1) = raw := by
        simp [List.drop_append]
      rw [htake] at hname
      rw [hdrop] at hval
      obtain ⟨trail, hraw, htrail⟩ := exists_trim_split isOws raw
      have hlead : (raw.takeWhile isOws).all isOws = true := List.all_takeWhile
      have hnil : name ≠ [] := by
        intro e
        simp [e] at hne
      cases hv : trimOws raw with
      | nil =>
          -- An empty value: all the white space counts as leading.
          have hall : raw.all isOws = true := by
            have e : raw = raw.takeWhile isOws ++ trail := by
              conv_lhs => rw [hraw]
              have : trim isOws raw = [] := hv
              simp [this]
            rw [e, List.all_append, hlead, htrail]
            rfl
          refine ⟨⟨name, raw, [], [], hnil, by simpa using hname, hall, rfl, rfl, rfl⟩,
            fun _ => rfl, ?_⟩
          simp [HeaderField.line, HeaderField.raw]
      | cons x v =>
          refine ⟨⟨name, raw.takeWhile isOws, trimOws raw, trail, hnil, by simpa using hname,
            hlead, htrail, by simpa using hval, trim_trim raw⟩, ?_, ?_⟩
          · intro hn
            simp only at hn
            rw [hv] at hn
            cases hn
          · simp only [HeaderField.line, HeaderField.raw]
            rw [trimOws, ← hraw]

/-- A field is refused with one error only. -/
theorem handleHeader_error {name : List UInt8} {off : Nat} {val : List UInt8}
    {req : HttpRequest} {seen : Seen} {e : ParseError}
    (h : handleHeader name off val req seen = .error e) : e = .bad := by
  unfold handleHeader at h
  repeat' split at h
  all_goals cases h
  all_goals rfl

/-- So is a line. -/
theorem parseHeaderLine_error {off : Nat} {line : List UInt8} {req : HttpRequest} {seen : Seen}
    {e : ParseError} (h : parseHeaderLine off line req seen = .error e) : e = .bad := by
  unfold parseHeaderLine at h
  split at h
  · cases h; rfl
  cases hm : memchr line COLON with
  | none =>
      rw [hm] at h
      cases h; rfl
  | some colon =>
      rw [hm] at h
      simp only at h
      split at h
      · cases h; rfl
      split at h
      · cases h; rfl
      split at h
      · cases h; rfl
      exact handleHeader_error h

/-- A line with a bare LF is rejected whatever its other bytes are. -/
theorem parseHeaderLine_of_lf_mem {line : List UInt8} (h : LF ∈ line) (off : Nat)
    (req : HttpRequest) (seen : Seen) : parseHeaderLine off line req seen = .error .bad := by
  cases hr : parseHeaderLine off line req seen with
  | error e => rw [parseHeaderLine_error hr]
  | ok r =>
      obtain ⟨f, -, rfl⟩ := exists_field_of_parseHeaderLine hr
      exact absurd h f.lf_not_mem_line

/-! ## The header block -/

/-- `handle_header` on each line of a header block that starts at `off`. -/
def runFields : Nat → List HeaderField → HttpRequest → Seen →
    Except ParseError (HttpRequest × Seen)
  | _, [], req, seen => .ok (req, seen)
  | off, f :: fs, req, seen =>
      match handleHeader f.name (f.valueOff off) f.value req seen with
      | .error e => .error e
      | .ok (req, seen) => runFields (off + f.render.length) fs req seen

/-- So are some lines. -/
theorem runFields_error {off : Nat} {fs : List HeaderField} {req : HttpRequest} {seen : Seen}
    {e : ParseError} (h : runFields off fs req seen = .error e) : e = .bad := by
  induction fs generalizing off req seen with
  | nil => cases h
  | cons f fs ih =>
      rw [runFields] at h
      cases hh : handleHeader f.name (f.valueOff off) f.value req seen with
      | error e' =>
          rw [hh] at h
          cases h
          exact handleHeader_error hh
      | ok r =>
          rw [hh] at h
          exact ih h

/-- One turn of the header loop over a rendered line. -/
theorem parseHeaders_render_cons (f : HeaderField) (n off : Nat) (p : List UInt8)
    (req : HttpRequest) (seen : Seen) :
    parseHeaders (n + 1) off (f.render ++ p) req seen =
      match handleHeader f.name (f.valueOff off) f.value req seen with
      | .error e => .error e
      | .ok (req, seen) => parseHeaders n (off + f.render.length) p req seen := by
  have hfind : findCrlf (f.render ++ p) = .ok f.line.length := by
    rw [HeaderField.render, List.append_assoc]
    exact findCrlf_append f.cr_not_mem_line
  have hne : f.line.length ≠ 0 := by simp [f.line_ne_nil]
  have htake : (f.render ++ p).take f.line.length = f.line := by
    simp [HeaderField.render]
  have hdrop : (f.render ++ p).drop (f.line.length + 2) = p := by
    rw [← f.render_length]
    simp
  rewrite [parseHeaders, hfind]
  dsimp only
  rewrite [if_neg hne, htake, hdrop, parseHeaderLine_line, f.render_length]
  rfl

/-- The empty line ends the fields. -/
theorem parseHeaders_crlf (n off : Nat) (p : List UInt8) (req : HttpRequest) (seen : Seen) :
    parseHeaders (n + 1) off (CRLF ++ p) req seen = .ok (off, req, seen) := by
  have hfind : findCrlf (CRLF ++ p) = .ok 0 := findCrlf_append (a := []) (by simp)
  simp only [parseHeaders, hfind, if_true]

/-- The header loop on a rendered block runs `handle_header` over its lines and
stops at the empty line. -/
theorem parseHeaders_render (fs : List HeaderField) (p : List UInt8) :
    ∀ (n off : Nat) (req : HttpRequest) (seen : Seen), fs.length < n →
      parseHeaders n off (renderFields fs ++ (CRLF ++ p)) req seen =
        match runFields off fs req seen with
        | .error e => .error e
        | .ok (req, seen) => .ok (off + (renderFields fs).length, req, seen) := by
  induction fs with
  | nil =>
      intro n off req seen hn
      obtain ⟨m, rfl⟩ : ∃ m, n = m + 1 := ⟨n - 1, by simp at hn; omega⟩
      exact parseHeaders_crlf m off p req seen
  | cons f fs ih =>
      intro n off req seen hn
      obtain ⟨m, rfl⟩ : ∃ m, n = m + 1 := ⟨n - 1, by omega⟩
      rw [renderFields_cons, List.append_assoc, parseHeaders_render_cons, runFields]
      cases handleHeader f.name (f.valueOff off) f.value req seen with
      | error e => rfl
      | ok r =>
          have hm : fs.length < m := by simpa using hn
          simp only [ih m _ _ _ hm, List.length_append, Nat.add_assoc]

/-- The loop over the fields never says that a request is not supported. -/
theorem parseHeaders_ne_unsupported (n : Nat) : ∀ (off : Nat) (p : List UInt8)
    (req : HttpRequest) (seen : Seen), parseHeaders n off p req seen ≠ .error .unsupported := by
  induction n with
  | zero =>
      intro off p req seen h
      cases h
  | succ n ih =>
      intro off p req seen h
      rw [parseHeaders] at h
      split at h
      · rename_i hf
        cases h
        exact findCrlf_ne_unsupported p hf
      · split at h
        · cases h
        split at h
        · rename_i hl
          cases h
          exact absurd (parseHeaderLine_error hl) (by decide)
        · exact ih _ _ _ _ h

/-- A header block the loop accepts is a rendered block of canonical lines
followed by an empty line. -/
theorem exists_fields_of_parseHeaders {n off : Nat} {p : List UInt8} {req : HttpRequest}
    {seen : Seen} {off' : Nat} {req' : HttpRequest} {seen' : Seen}
    (h : parseHeaders n off p req seen = .ok (off', req', seen')) :
    ∃ (fs : List HeaderField) (tail : List UInt8), (∀ f ∈ fs, f.Canonical) ∧
      p = renderFields fs ++ (CRLF ++ tail) ∧ fs.length < n ∧
        runFields off fs req seen = .ok (req', seen') ∧
          off' = off + (renderFields fs).length := by
  induction n generalizing off p req seen with
  | zero => cases h
  | succ n ih =>
      rw [parseHeaders] at h
      cases hf : findCrlf p with
      | error e =>
          rw [hf] at h
          cases h
      | ok eol =>
          rw [hf] at h
          obtain ⟨a, b, rfl, ha, rfl⟩ := findCrlf_ok hf
          simp only at h
          split at h
          · rename_i hz
            cases h
            have : a = [] := List.length_eq_zero_iff.1 hz
            subst this
            exact ⟨[], b, by simp, rfl, by simp, rfl, rfl⟩
          · have htake : (a ++ (CRLF ++ b)).take a.length = a := by simp
            have hdrop : (a ++ (CRLF ++ b)).drop (a.length + 2) = b := by
              rw [← List.append_assoc]
              exact List.drop_left' (by simp)
            rw [htake, hdrop] at h
            cases hl : parseHeaderLine off a req seen with
            | error e =>
                rw [hl] at h
                cases h
            | ok r =>
                rw [hl] at h
                obtain ⟨f, hcan, rfl⟩ := exists_field_of_parseHeaderLine hl
                rw [parseHeaderLine_line] at hl
                obtain ⟨fs, tail, hfs, rfl, hn, hrun, rfl⟩ := ih h
                refine ⟨f :: fs, tail, ?_, ?_, by simpa using hn, ?_, ?_⟩
                · intro g hg
                  rcases List.mem_cons.1 hg with rfl | hg
                  · exact hcan
                  · exact hfs g hg
                · simp [HeaderField.render]
                · rw [runFields, hl]
                  simpa [f.render_length] using hrun
                · simp only [renderFields_cons, List.length_append, f.render_length]
                  omega

/-! ## The request-target -/

/-- `ascii_ieq` compares the first bytes of its argument. -/
theorem asciiIeq_take {a b : List UInt8} (hb : b.map asciiLower = b) :
    asciiIeq a b = true ↔ (a.take b.length).map asciiLower = b := by
  simp [asciiIeq, hb]

namespace Target

/-- The index where the path of a target starts, if it has one. -/
def pathIndex : Target → Option Nat
  | origin _ _ _ => some 0
  | absolute scheme authority path _ _ _ _ =>
      if path = [] then none else some (scheme.length + authority.length)

theorem bytes_ne_nil (t : Target) : t.bytes ≠ [] := by
  cases t with
  | origin path hs _ =>
      intro e
      simp only [bytes] at e
      simp [e] at hs
  | absolute s a p hs _ _ _ =>
      intro e
      simp only [bytes, List.append_eq_nil_iff] at e
      rcases hs with h | h <;> simp [e.1.1, cstr] at h

end Target

/-- After a scheme the path starts at the next slash. -/
theorem pathStart_scheme {s r : List UInt8} (hs : isScheme s) :
    pathStart (s ++ r) = .ok ((memchr r SLASH).map (s.length + ·)) := by
  have hlow7 : (cstr "http://").map asciiLower = cstr "http://" := by decide
  have hlow8 : (cstr "https://").map asciiLower = cstr "https://" := by decide
  have hne : ∀ lit : List UInt8, s.map asciiLower = lit → lit.head? = some 0x68 →
      (s ++ r)[0]? ≠ some SLASH := by
    intro lit hl hh
    cases s with
    | nil => simp [← hl] at hh
    | cons c s =>
        rw [← hl] at hh
        simp at hh
        intro e
        simp at e
        subst e
        exact absurd hh (by decide)
  rcases hs with h | h
  · have hlen : s.length = 7 := by
      have := congrArg List.length h
      simpa [cstr] using this
    have hie : asciiIeq (s ++ r) (cstr "http://") = true := by
      rw [asciiIeq_take hlow7]
      have : (cstr "http://").length = s.length := by rw [hlen]; decide
      rw [this, List.take_left, h]
    have hdrop : (s ++ r).drop 7 = r := by rw [← hlen, List.drop_left]
    unfold pathStart
    rw [if_neg (hne _ h (by decide)), if_pos ⟨by simp; omega, hie⟩, hdrop, hlen]
  · have hlen : s.length = 8 := by
      have := congrArg List.length h
      simpa [cstr] using this
    have hie : asciiIeq (s ++ r) (cstr "https://") = true := by
      rw [asciiIeq_take hlow8]
      have : (cstr "https://").length = s.length := by rw [hlen]; decide
      rw [this, List.take_left, h]
    have hnot : asciiIeq (s ++ r) (cstr "http://") = false := by
      rw [Bool.eq_false_iff, Ne, asciiIeq_take hlow7]
      have h7 : (cstr "http://").length = 7 := by decide
      rw [h7, List.take_append_of_le_length (by omega), List.map_take, h]
      decide
    have hdrop : (s ++ r).drop 8 = r := by rw [← hlen, List.drop_left]
    unfold pathStart
    rw [if_neg (hne _ h (by decide)), if_neg (by simp [hnot]),
      if_pos ⟨by simp; omega, hie⟩, hdrop, hlen]

/-- The path starts where the target says, and only a scheme or a slash starts a
target. -/
theorem pathStart_bytes (t : Target) : pathStart t.bytes = .ok t.pathIndex := by
  cases t with
  | origin path hs _ =>
      cases path with
      | nil => simp at hs
      | cons c path =>
          simp at hs
          subst hs
          simp [pathStart, Target.bytes, Target.pathIndex]
  | absolute s a p hs ha hp _ =>
      have hna : SLASH ∉ a := fun h => (ha _ h).1 rfl
      simp only [Target.bytes, Target.pathIndex, List.append_assoc]
      rw [pathStart_scheme hs]
      cases p with
      | nil =>
          have : memchr a SLASH = none := memchr_eq_none.2 hna
          simp [this]
      | cons c p =>
          rcases hp with hp | hp
          · cases hp
          · simp at hp
            subst hp
            rw [memchr_append_cons hna]
            simp

/-- What compares equal to a scheme is one, in any case. -/
theorem isScheme_of_asciiIeq {t : List UInt8} {n : Nat} {lit : List UInt8}
    (hlow : lit.map asciiLower = lit) (hlen : lit.length = n)
    (hlit : lit = cstr "http://" ∨ lit = cstr "https://") (h : asciiIeq t lit = true) :
    isScheme (t.take n) := by
  rw [asciiIeq_take hlow, hlen] at h
  rcases hlit with rfl | rfl
  · exact Or.inl h
  · exact Or.inr h

/-- After the scheme comes the authority, up to the first slash. -/
theorem exists_target_of_scheme {s r : List UInt8} (hs : isScheme s) (hsp : SP ∉ r)
    (hcr : CR ∉ r)
    (hpath : ∀ i, memchr r SLASH = some i → (r.drop i).all isTargetChar = true) :
    ∃ T : Target, s ++ r = T.bytes := by
  cases hm : memchr r SLASH with
  | none =>
      rw [memchr_eq_none] at hm
      refine ⟨.absolute s r [] hs ?_ (Or.inl rfl) rfl, by simp [Target.bytes]⟩
      exact fun c hc => ⟨ne_of_mem_of_not_mem hc hm, ne_of_mem_of_not_mem hc hsp,
        ne_of_mem_of_not_mem hc hcr⟩
  | some i =>
      have hp := hpath i hm
      obtain ⟨a, p, rfl, ha, rfl⟩ := memchr_eq_some hm
      rw [List.drop_left] at hp
      refine ⟨.absolute s a (SLASH :: p) hs ?_ (Or.inr rfl) hp,
        by simp [Target.bytes]⟩
      intro c hc
      have hc' : c ∈ a ++ SLASH :: p := by simp [hc]
      exact ⟨ne_of_mem_of_not_mem hc ha, ne_of_mem_of_not_mem hc' hsp,
        ne_of_mem_of_not_mem hc' hcr⟩

/-- A target is refused with one error only. -/
theorem pathStart_error {t : List UInt8} {e : ParseError} (h : pathStart t = .error e) :
    e = .bad := by
  unfold pathStart at h
  split at h
  · cases h
  split at h
  · cases h
  split at h
  · cases h
  cases h
  rfl

/-- The forms `parse_request_target` accepts, for a target without SP and CR. -/
theorem exists_target_of_pathStart {t : List UInt8} {start : Option Nat}
    (h : pathStart t = .ok start) (hsp : SP ∉ t) (hcr : CR ∉ t)
    (hpath : ∀ i, start = some i → (t.drop i).all isTargetChar = true) :
    ∃ T : Target, t = T.bytes := by
  have split7 : t = t.take 7 ++ t.drop 7 := (List.take_append_drop 7 t).symm
  have split8 : t = t.take 8 ++ t.drop 8 := (List.take_append_drop 8 t).symm
  unfold pathStart at h
  split at h
  · rename_i hs
    cases h
    refine ⟨.origin t (by simpa [List.head?_eq_getElem?] using hs) (hpath 0 rfl), rfl⟩
  split at h
  · rename_i hs
    cases h
    have hscheme := isScheme_of_asciiIeq (n := 7) (by decide) (by decide) (Or.inl rfl) hs.2
    rw [split7] at hsp hcr
    obtain ⟨T, hT⟩ := exists_target_of_scheme (r := t.drop 7) hscheme
      (fun hm => hsp (List.mem_append_right _ hm)) (fun hm => hcr (List.mem_append_right _ hm))
      (fun i hi => by
        have := hpath (7 + i) (by simp [hi])
        rwa [← List.drop_drop] at this)
    exact ⟨T, by rw [← hT, ← split7]⟩
  split at h
  · rename_i hs
    cases h
    have hscheme := isScheme_of_asciiIeq (n := 8) (by decide) (by decide) (Or.inr rfl) hs.2
    rw [split8] at hsp hcr
    obtain ⟨T, hT⟩ := exists_target_of_scheme (r := t.drop 8) hscheme
      (fun hm => hsp (List.mem_append_right _ hm)) (fun hm => hcr (List.mem_append_right _ hm))
      (fun i hi => by
        have := hpath (8 + i) (by simp [hi])
        rwa [← List.drop_drop] at this)
    exact ⟨T, by rw [← hT, ← split8]⟩
  cases h

namespace Target

/-- The path of a target together with its query. -/
def path : Target → List UInt8
  | origin path _ _ => path
  | absolute _ _ path _ _ _ _ => path

theorem path_chars (t : Target) : t.path.all isTargetChar = true := by
  cases t with
  | origin path _ hc => exact hc
  | absolute _ _ path _ _ _ hc => exact hc

/-- The path is what follows its index. -/
theorem drop_pathIndex (t : Target) {i : Nat} (h : t.pathIndex = some i) :
    t.bytes.drop i = t.path := by
  cases t with
  | origin path _ _ =>
      cases h
      rfl
  | absolute s a p _ _ _ _ =>
      simp only [pathIndex] at h
      split at h
      · cases h
      · cases h
        rw [← List.length_append]
        exact List.drop_left

end Target

/-- The slices `parse_request_target` stores for a target at offset `off`. -/
def targetSlices (off : Nat) (t : Target) (req : HttpRequest) : HttpRequest :=
  match t.pathIndex with
  | none => { req with target := ⟨u16 off, u16 t.bytes.length⟩, path := ⟨0, 0⟩ }
  | some start =>
      match memchr t.path QMARK with
      | some q => { req with
          target := ⟨u16 off, u16 t.bytes.length⟩
          path := ⟨u16 (off + start), u16 q⟩
          query := ⟨u16 (off + start + (q + 1)), u16 (t.path.length - (q + 1))⟩ }
      | none => { req with
          target := ⟨u16 off, u16 t.bytes.length⟩
          path := ⟨u16 (off + start), u16 t.path.length⟩ }

/-- The slices of a target that is well formed. -/
theorem parseRequestTarget_bytes (off : Nat) (t : Target) (req : HttpRequest) :
    parseRequestTarget off t.bytes req = .ok (targetSlices off t req) := by
  unfold parseRequestTarget targetSlices
  rw [pathStart_bytes]
  cases hi : t.pathIndex with
  | none => rfl
  | some start =>
      simp only [t.drop_pathIndex hi, t.path_chars, Bool.not_true, Bool.false_eq_true, if_false]
      cases memchr t.path QMARK <;> rfl

theorem parseRequestTarget_error {off : Nat} {t : List UInt8} {req : HttpRequest}
    {e : ParseError} (h : parseRequestTarget off t req = .error e) : e = .bad := by
  unfold parseRequestTarget at h
  cases hp : pathStart t with
  | error e' =>
      rw [hp] at h
      cases h
      exact pathStart_error hp
  | ok start =>
      rw [hp] at h
      cases start with
      | none => cases h
      | some i =>
          simp only at h
          split at h
          · cases h
            rfl
          · split at h <;> cases h

/-- What is accepted as a target is one. -/
theorem exists_target_of_parseRequestTarget {off : Nat} {t : List UInt8} {req req' : HttpRequest}
    (h : parseRequestTarget off t req = .ok req') (hsp : SP ∉ t) (hcr : CR ∉ t) :
    ∃ T : Target, t = T.bytes := by
  unfold parseRequestTarget at h
  cases hp : pathStart t with
  | error e =>
      rw [hp] at h
      cases h
  | ok start =>
      rw [hp] at h
      refine exists_target_of_pathStart hp hsp hcr ?_
      rintro i rfl
      simp only at h
      split at h
      · cases h
      · rename_i hc
        simpa using hc

/-! ## The request line -/

theorem version_length (m : Fin 2) : (Head.version m).length = 8 := by
  have : (cstr "HTTP/1.").length = 7 := by decide
  simp [Head.version, this]

/-- Both minor versions are accepted. -/
theorem parseVersion_version (m : Fin 2) : parseVersion (Head.version m) = .ok m.val := by
  match m with
  | 0 => decide
  | 1 => decide

/-- Nothing else is. -/
theorem exists_version_of_parseVersion {v : List UInt8} {n : Nat} (h : parseVersion v = .ok n) :
    ∃ m : Fin 2, v = Head.version m ∧ n = m.val := by
  unfold parseVersion at h
  split at h
  · cases h
  rename_i hshape
  simp only [not_or, Decidable.not_not, ne_eq] at hshape
  obtain ⟨hlen, htake⟩ := hshape
  have hv : ∀ c : UInt8, v[7]? = some c → v = cstr "HTTP/1." ++ [c] := by
    intro c hc
    have hd : v.drop 7 = [c] := by
      obtain ⟨hlt, hget⟩ := List.getElem?_eq_some_iff.1 hc
      rw [List.drop_eq_getElem_cons hlt, hget, List.drop_eq_nil_of_le (by omega)]
    rw [← htake, ← hd, List.take_append_drop]
  split at h
  · rename_i h1
    cases h
    exact ⟨1, hv _ h1, rfl⟩
  · split at h
    · rename_i h0
      cases h
      exact ⟨0, hv _ h0, rfl⟩
    · cases h

theorem parseVersion_error {v : List UInt8} {e : ParseError} (h : parseVersion v = .error e) :
    e = .bad := by
  unfold parseVersion at h
  repeat' split at h
  all_goals cases h
  rfl
  rfl

/-- What `parse_request_line` stores for the request line of `h`. -/
def lineSlices (h : Head) (req : HttpRequest) : HttpRequest :=
  { targetSlices (h.method.length + 1) h.target { req with method := parseMethod h.method } with
    minorVersion := h.minor.val }

namespace Target

theorem sp_not_mem (t : Target) : SP ∉ t.bytes := by
  have hp : SP ∉ t.path := fun hm => by
    have := List.all_eq_true.1 t.path_chars _ hm
    exact absurd this (by decide)
  cases t with
  | origin path _ _ => exact hp
  | absolute s a p hs ha _ _ =>
      have h1 : SP ∉ s := by
        intro hm
        have hm' : asciiLower SP ∈ s.map asciiLower := List.mem_map_of_mem hm
        rcases hs with h | h <;> rw [h] at hm' <;> exact absurd hm' (by decide)
      have h2 : SP ∉ a := fun hm => (ha _ hm).2.1 rfl
      simp only [path] at hp
      simp [bytes, h1, h2, hp]

theorem cr_not_mem (t : Target) : CR ∉ t.bytes := by
  have hp : CR ∉ t.path := fun hm => by
    have := List.all_eq_true.1 t.path_chars _ hm
    exact absurd this (by decide)
  cases t with
  | origin path _ _ => exact hp
  | absolute s a p hs ha _ _ =>
      have h1 : CR ∉ s := by
        intro hm
        have hm' : asciiLower CR ∈ s.map asciiLower := List.mem_map_of_mem hm
        rcases hs with h | h <;> rw [h] at hm' <;> exact absurd hm' (by decide)
      have h2 : CR ∉ a := fun hm => (ha _ hm).2.2 rfl
      simp only [path] at hp
      simp [bytes, h1, h2, hp]

end Target

/-- The slices of a request line that is well formed. -/
theorem parseRequestLine_requestLine (h : Head) (req : HttpRequest) :
    parseRequestLine h.requestLine req = .ok (lineSlices h req) := by
  have hsp1 : memchr h.requestLine SP = some h.method.length :=
    memchr_append_cons (not_mem_of_all_isTchar h.method_tchar (by decide))
  have hne1 : h.method.length ≠ 0 := by simp [h.method_ne]
  have htake1 : h.requestLine.take h.method.length = h.method := by simp [Head.requestLine]
  have hdrop1 : h.requestLine.drop (h.method.length + 1) =
      h.target.bytes ++ SP :: Head.version h.minor := by
    rw [Head.requestLine, ← List.drop_drop, List.drop_left]
    rfl
  have hsp2 : memchr (h.target.bytes ++ SP :: Head.version h.minor) SP =
      some h.target.bytes.length := memchr_append_cons h.target.sp_not_mem
  have hne2 : h.target.bytes.length ≠ 0 := by simp [h.target.bytes_ne_nil]
  have hdrop2 : (h.target.bytes ++ SP :: Head.version h.minor).drop
      (h.target.bytes.length + 1) = Head.version h.minor := by
    rw [← List.drop_drop, List.drop_left]
    rfl
  unfold parseRequestLine
  simp only [hsp1, hne1, if_false, htake1, h.method_tchar, Bool.not_true, Bool.false_eq_true,
    hdrop1, hsp2, hne2, List.take_left, parseRequestTarget_bytes, hdrop2, parseVersion_version,
    lineSlices]

/-- A request line is refused with one error only. -/
theorem parseRequestLine_error {line : List UInt8} {req : HttpRequest} {e : ParseError}
    (h : parseRequestLine line req = .error e) : e = .bad := by
  unfold parseRequestLine at h
  split at h
  · cases h; rfl
  split at h
  · cases h; rfl
  split at h
  · cases h; rfl
  simp only at h
  split at h
  · cases h; rfl
  split at h
  · cases h; rfl
  split at h
  · rename_i ht
    cases h
    exact parseRequestTarget_error ht
  · split at h
    · rename_i hv
      cases h
      exact parseVersion_error hv
    · cases h

/-- A request line the scanner accepts is the request line of a head. -/
theorem exists_head_of_parseRequestLine {line : List UInt8} {req req' : HttpRequest}
    (h : parseRequestLine line req = .ok req') (hcr : CR ∉ line) (fs : List HeaderField) :
    ∃ hd : Head, hd.fields = fs ∧ line = hd.requestLine := by
  unfold parseRequestLine at h
  cases hm1 : memchr line SP with
  | none =>
      rw [hm1] at h
      cases h
  | some sp1 =>
      rw [hm1] at h
      obtain ⟨m, rest, rfl, -, rfl⟩ := memchr_eq_some hm1
      have hdrop1 : (m ++ SP :: rest).drop (m.length + 1) = rest := by
        rw [← List.drop_drop, List.drop_left]
        rfl
      simp only [List.take_left, hdrop1] at h
      split at h
      · cases h
      split at h
      · cases h
      rename_i hne htchar
      cases hm2 : memchr rest SP with
      | none =>
          rw [hm2] at h
          cases h
      | some sp2 =>
          rw [hm2] at h
          obtain ⟨t, v, rfl, hsp, rfl⟩ := memchr_eq_some hm2
          have hdrop2 : (t ++ SP :: v).drop (t.length + 1) = v := by
            rw [← List.drop_drop, List.drop_left]
            rfl
          simp only [List.take_left, hdrop2] at h
          split at h
          · cases h
          split at h
          · cases h
          rename_i ht
          split at h
          · cases h
          rename_i hv
          have hcrt : CR ∉ t := fun hm => hcr (by simp [hm])
          obtain ⟨T, rfl⟩ := exists_target_of_parseRequestTarget ht hsp hcrt
          obtain ⟨minor, rfl, -⟩ := exists_version_of_parseVersion hv
          have hmne : m ≠ [] := by
            rintro rfl
            simp at hne
          exact ⟨⟨m, T, minor, fs, hmne, by simpa using htchar⟩, rfl, rfl⟩

end TinyServer.Http
