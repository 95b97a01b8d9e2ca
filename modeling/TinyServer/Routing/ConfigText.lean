import TinyServer.Http.RoundTrip
import TinyServer.Routing.Config

/-!
# Config files as text (`next_tok`, `tiny_site_load`)

A line of a config file is an entry (nothing, a `listen`, or a route) written with gaps of
spaces and tabs before its words, a comment and a carriage return (`Line`). `next_tok`
gives its words back one by one, whatever the layout is (`Words`), and `fgets` gives the lines of a file (`fileText`).
-/

set_option autoImplicit false

namespace TinyServer.Routing

open TinyServer.Http TinyServer.Static

/-! ## Words of a line -/

/-- A token that can stand in a line. -/
def IsWord (w : List UInt8) : Prop := w ≠ [] ∧ ∀ c ∈ w, isTokenChar c = true ∧ c ≠ 0

/-- What can follow the words of a line. -/
inductive LineEnd : List UInt8 → Prop
  | nil : LineEnd []
  | lf : LineEnd [LF]
  | cr : LineEnd [CR]
  | crlf : LineEnd [CR, LF]
  | comment (text : List UInt8) : LineEnd (HASH :: text)

/-- A text of the words `ws`: before each word stands a gap, which is empty only where no
word is before it. -/
inductive Words : List (List UInt8) → List UInt8 → Prop
  | done {gap rest : List UInt8} (hgap : gap.all isOws = true) (hrest : LineEnd rest) :
      Words [] (gap ++ rest)
  | word {gap w p : List UInt8} {ws : List (List UInt8)} (hgap : gap.all isOws = true)
      (hw : IsWord w) (hp : Words ws p) (hsep : ∀ c ∈ p.head?, isTokenChar c = false) :
      Words (w :: ws) (gap ++ (w ++ p))

theorem not_token_of_ows {c : UInt8} (h : isOws c = true) : isTokenChar c = false := by
  simp only [isOws, Bool.or_eq_true, beq_iff_eq] at h
  rcases h with rfl | rfl <;> decide

theorem not_ows_of_token {c : UInt8} (h : isTokenChar c = true) : isOws c = false := by
  cases hc : isOws c with
  | false => rfl
  | true => rw [not_token_of_ows hc] at h; cases h

theorem LineEnd.head {rest : List UInt8} (h : LineEnd rest) :
    ∀ c ∈ rest.head?, c = HASH ∨ c = LF ∨ c = CR := by
  intro c hc
  cases h <;> simp_all

/-- A scan stops where its characters end. -/
theorem dropWhile_stop {α : Type} {p : α → Bool} {l : List α} (h : ∀ c ∈ l.head?, p c = false) :
    l.dropWhile p = l ∧ l.takeWhile p = [] := by
  cases l with
  | nil => exact ⟨rfl, rfl⟩
  | cons c l =>
      have hc : p c = false := h c rfl
      exact ⟨List.dropWhile_cons_of_neg (by simp [hc]), List.takeWhile_cons_of_neg (by simp [hc])⟩

/-- Blanks before a token are skipped. -/
theorem skip_gap {gap rest : List UInt8} (hgap : gap.all isOws = true)
    (hrest : ∀ c ∈ rest.head?, isOws c = false) : (gap ++ rest).dropWhile isOws = rest := by
  rw [List.dropWhile_append_of_pos (List.all_eq_true.1 hgap), (dropWhile_stop hrest).1]

/-- What `next_tok` leaves after a token. -/
def afterToken (p : List UInt8) : List UInt8 :=
  match p with
  | [] => []
  | d :: rest => if d = HASH then [] else rest

/-- `next_tok` reads one word and leaves the text after it. -/
theorem nextTok_word {gap w p : List UInt8} (hgap : gap.all isOws = true) (hw : IsWord w)
    (hp : ∀ c ∈ p.head?, isTokenChar c = false) :
    nextTok (gap ++ (w ++ p)) = (some w, afterToken p) := by
  obtain ⟨c, w', rfl⟩ := List.exists_cons_of_ne_nil hw.1
  have htok : ∀ d ∈ c :: w', isTokenChar d = true := fun d hd => (hw.2 d hd).1
  have hc : isTokenChar c = true := htok c List.mem_cons_self
  have hskip : (gap ++ (c :: w' ++ p)).dropWhile isOws = c :: (w' ++ p) :=
    skip_gap hgap fun d hd => by
      obtain rfl : c = d := by simpa using hd
      exact not_ows_of_token hc
  have hstop : ¬ (c = HASH ∨ c = LF ∨ c = CR) := by
    rintro (rfl | rfl | rfl) <;> exact absurd hc (by decide)
  have htake : (c :: (w' ++ p)).takeWhile isTokenChar = c :: w' := by
    have h : (c :: w' ++ p).takeWhile isTokenChar = c :: w' ++ p.takeWhile isTokenChar :=
      List.takeWhile_append_of_pos htok
    rwa [(dropWhile_stop hp).2, List.append_nil] at h
  have hdrop : (c :: (w' ++ p)).dropWhile isTokenChar = p := by
    have h : (c :: w' ++ p).dropWhile isTokenChar = p.dropWhile isTokenChar :=
      List.dropWhile_append_of_pos htok
    rwa [(dropWhile_stop hp).1] at h
  simp only [nextTok, hskip, if_neg hstop, htake, hdrop, afterToken]
  cases p with
  | nil => rfl
  | cons d p => by_cases hd : d = HASH <;> simp [hd]

/-- At the end of the line there is no token. -/
theorem nextTok_end {gap rest : List UInt8} (hgap : gap.all isOws = true) (hrest : LineEnd rest) :
    (nextTok (gap ++ rest)).1 = none := by
  have hhead := hrest.head
  have hskip : (gap ++ rest).dropWhile isOws = rest :=
    skip_gap hgap fun c hc => by rcases hhead c hc with rfl | rfl | rfl <;> decide
  simp only [nextTok, hskip]
  cases rest with
  | nil => rfl
  | cons c rest => simp [hhead c rfl]

/-- A text of words is one without the character that ended a token before it. -/
theorem Words.afterToken {ws : List (List UInt8)} {p : List UInt8} (h : Words ws p)
    (hsep : ∀ c ∈ p.head?, isTokenChar c = false) : Words ws (afterToken p) := by
  cases h with
  | @done gap rest hgap hrest =>
      cases gap with
      | nil =>
          have hnil : Words [] [] := .done List.all_nil .nil
          cases hrest with
          | nil => exact hnil
          | lf => exact hnil
          | cr => exact hnil
          | crlf => exact .done List.all_nil .lf
          | comment text => simpa [Routing.afterToken] using hnil
      | cons c gap =>
          simp only [List.all_cons, Bool.and_eq_true] at hgap
          have hc : c ≠ HASH := by rintro rfl; exact absurd hgap.1 (by decide)
          simpa [Routing.afterToken, hc] using Words.done hgap.2 hrest
  | @word gap w p ws hgap hw hp hsep' =>
      cases gap with
      | nil =>
          obtain ⟨c, w', rfl⟩ := List.exists_cons_of_ne_nil hw.1
          have hno := hsep c rfl
          rw [(hw.2 c List.mem_cons_self).1] at hno
          cases hno
      | cons c gap =>
          simp only [List.all_cons, Bool.and_eq_true] at hgap
          have hc : c ≠ HASH := by rintro rfl; exact absurd hgap.1 (by decide)
          simpa [Routing.afterToken, hc] using Words.word hgap.2 hw hp hsep'

/-- The tokens of a line come one by one. -/
theorem Words.next {w : List UInt8} {ws : List (List UInt8)} {p : List UInt8}
    (h : Words (w :: ws) p) : ∃ p', nextTok p = (some w, p') ∧ Words ws p' := by
  cases h with
  | word hgap hw hp hsep => exact ⟨_, nextTok_word hgap hw hsep, hp.afterToken hsep⟩

theorem Words.none {p : List UInt8} (h : Words [] p) : ∃ p', nextTok p = (none, p') := by
  cases h with
  | done hgap hrest => exact ⟨_, Prod.ext (nextTok_end hgap hrest) rfl⟩

/-! ## Entries and lines -/

/-- What a route line says. -/
structure RouteSpec where
  type : RouteType
  pathPrefix : List UInt8
  target : List UInt8
  typed : type ≠ .none
  prefix_ok : prefixOk pathPrefix = true
  prefix_word : IsWord pathPrefix
  prefix_short : pathPrefix.length < TINY_PREFIX_MAX
  target_word : IsWord target
  target_short : target.length < TINY_TARGET_MAX

/-- The keyword of a route of this type. -/
def keyword : RouteType → List UInt8
  | .none => []
  | .static => cstr "static"
  | .proxy => cstr "proxy"
  | .app => cstr "app"

/-- What a line says. The port is written in decimal digits, with zeros before them or not. -/
inductive Entry where
  | blank
  | listen (digits : List UInt8) (digits_ne : digits ≠ [])
      (digits_digit : digits.all isDigit = true)
  | route (r : RouteSpec)

namespace Entry

/-- The words of a line. -/
def words : Entry → List (List UInt8)
  | blank => []
  | listen digits _ _ => [cstr "listen", digits]
  | route r => [keyword r.type, r.pathPrefix, r.target]

/-- The port that a line gives. -/
def digits? : Entry → Option (List UInt8)
  | listen digits _ _ => some digits
  | _ => none

/-- The route that a line gives. -/
def route? : Entry → Option RouteSpec
  | route r => some r
  | _ => none

@[simp] theorem digits?_blank : blank.digits? = none := rfl

@[simp] theorem digits?_listen (d : List UInt8) (h₁ : d ≠ []) (h₂ : d.all isDigit = true) :
    (listen d h₁ h₂).digits? = some d := rfl

@[simp] theorem digits?_route (r : RouteSpec) : (route r).digits? = none := rfl

@[simp] theorem route?_blank : blank.route? = none := rfl

@[simp] theorem route?_listen (d : List UInt8) (h₁ : d ≠ []) (h₂ : d.all isDigit = true) :
    (listen d h₁ h₂).route? = none := rfl

@[simp] theorem route?_route (r : RouteSpec) : (route r).route? = some r := rfl

end Entry

theorem isTokenChar_of_digit {c : UInt8} (h : isDigit c = true) : isTokenChar c = true ∧ c ≠ 0 := by
  have hle : ¬ (c < 0x30 ∨ 0x39 < c) := isDigit_iff.1 h
  constructor
  · simp only [isTokenChar, Bool.not_eq_true', Bool.or_eq_false_iff, beq_eq_false_iff_ne]
    refine ⟨⟨⟨⟨?_, ?_⟩, ?_⟩, ?_⟩, ?_⟩ <;> rintro rfl <;> exact hle (by decide)
  · rintro rfl
    exact hle (by decide)

theorem isWord_keyword {t : RouteType} (h : t ≠ .none) : IsWord (keyword t) := by
  have hall : ∀ w : List UInt8, (w.all fun c => isTokenChar c && c != 0) = true →
      ∀ c ∈ w, isTokenChar c = true ∧ c ≠ 0 := fun w hw c hc => by
    simpa using List.all_eq_true.1 hw c hc
  cases t with
  | none => exact absurd rfl h
  | static => exact ⟨by decide, hall _ (by decide)⟩
  | proxy => exact ⟨by decide, hall _ (by decide)⟩
  | app => exact ⟨by decide, hall _ (by decide)⟩

theorem Entry.isWord {e : Entry} : ∀ w ∈ e.words, IsWord w := by
  cases e with
  | blank => simp [words]
  | listen digits hne hd =>
      simp only [words, List.mem_cons, List.not_mem_nil, or_false]
      rintro w (rfl | rfl)
      · refine ⟨by decide, fun c hc => ?_⟩
        have hall : ((cstr "listen").all fun c => isTokenChar c && c != 0) = true := by decide
        simpa using List.all_eq_true.1 hall c hc
      · exact ⟨hne, fun c hc => isTokenChar_of_digit (List.all_eq_true.1 hd c hc)⟩
  | route r =>
      simp only [words, List.mem_cons, List.not_mem_nil, or_false]
      rintro w (rfl | rfl | rfl)
      · exact isWord_keyword r.typed
      · exact r.prefix_word
      · exact r.target_word

/-- Words with the gaps before them. -/
def spread : List (List UInt8) → List (List UInt8) → List UInt8
  | gap :: gaps, w :: ws => gap ++ (w ++ spread gaps ws)
  | _, _ => []

/-- A line, without its line feed: an entry and its layout. -/
structure Line where
  entry : Entry
  gaps : List (List UInt8)
  trail : List UInt8
  comment : Option (List UInt8)
  carriage : Bool
  gaps_length : gaps.length = entry.words.length
  gaps_ows : ∀ gap ∈ gaps, gap.all isOws = true
  gaps_ne : ∀ gap ∈ gaps.tail, gap ≠ []
  trail_ows : trail.all isOws = true
  comment_lf : LF ∉ comment.getD []

namespace Line

/-- What follows the words and the white space. -/
def ending (l : Line) : List UInt8 :=
  (match l.comment with
    | none => []
    | some text => HASH :: text) ++ if l.carriage then [CR] else []

/-- The line as it is written. -/
def text (l : Line) : List UInt8 := spread l.gaps l.entry.words ++ (l.trail ++ l.ending)

end Line

theorem ne_zero_of_ows {c : UInt8} (h : isOws c = true) : c ≠ 0 ∧ c ≠ LF := by
  simp only [isOws, Bool.or_eq_true, beq_iff_eq] at h
  rcases h with rfl | rfl <;> decide

theorem ne_lf_of_token {c : UInt8} (h : isTokenChar c = true) : c ≠ LF := by
  rintro rfl
  exact absurd h (by decide)

/-- A text of words with gaps between them and the end of a line after them. -/
theorem words_spread {rest : List UInt8} {ws : List (List UInt8)} (hrest : Words [] rest)
    (hstop : ∀ c ∈ rest.head?, isTokenChar c = false) :
    ∀ {gaps : List (List UInt8)}, gaps.length = ws.length →
      (∀ gap ∈ gaps, gap.all isOws = true) → (∀ gap ∈ gaps.tail, gap ≠ []) →
      (∀ w ∈ ws, IsWord w) → Words ws (spread gaps ws ++ rest) := by
  induction ws with
  | nil =>
      intro gaps hlen _ _ _
      obtain rfl : gaps = [] := List.length_eq_zero_iff.1 hlen
      exact hrest
  | cons w ws ih =>
      intro gaps hlen hows hne hw
      cases gaps with
      | nil => cases hlen
      | cons gap gaps =>
          have hlen' : gaps.length = ws.length := by simpa using hlen
          have htail : Words ws (spread gaps ws ++ rest) :=
            ih hlen' (fun g hg => hows g (List.mem_cons_of_mem _ hg))
              (fun g hg => hne g (List.mem_of_mem_tail hg))
              fun v hv => hw v (List.mem_cons_of_mem _ hv)
          have hsep : ∀ c ∈ (spread gaps ws ++ rest).head?, isTokenChar c = false := by
            -- the next word has a gap before it
            cases gaps with
            | nil =>
                obtain rfl : ws = [] := List.length_eq_zero_iff.1 hlen'.symm
                exact hstop
            | cons g gaps =>
                cases ws with
                | nil => cases hlen'
                | cons v ws =>
                    have hg := hows g (by simp)
                    obtain ⟨c, g', rfl⟩ := List.exists_cons_of_ne_nil (hne g (by simp))
                    simp only [List.all_cons, Bool.and_eq_true] at hg
                    intro d hd
                    obtain rfl : c = d := by simpa [spread] using hd
                    exact not_token_of_ows hg.1
          have := Words.word (hows gap List.mem_cons_self) (hw w List.mem_cons_self) htail hsep
          simpa [spread] using this

/-- What holds of blanks and of word characters holds of every byte of a line. -/
theorem spread_bytes {p : UInt8 → Prop} {ws : List (List UInt8)}
    (hgap : ∀ c, isOws c = true → p c) (hword : ∀ c, isTokenChar c = true ∧ c ≠ 0 → p c) :
    ∀ {gaps : List (List UInt8)}, (∀ gap ∈ gaps, gap.all isOws = true) → (∀ w ∈ ws, IsWord w) →
      ∀ c ∈ spread gaps ws, p c := by
  induction ws with
  | nil =>
      intro gaps _ _ c hc
      cases gaps <;> simp [spread] at hc
  | cons w ws ih =>
      intro gaps hows hw c hc
      cases gaps with
      | nil => simp [spread] at hc
      | cons gap gaps =>
          simp only [spread, List.mem_append] at hc
          rcases hc with hc | hc | hc
          · exact hgap c (List.all_eq_true.1 (hows gap List.mem_cons_self) c hc)
          · exact hword c ((hw w List.mem_cons_self).2 c hc)
          · exact ih (fun g hg => hows g (List.mem_cons_of_mem _ hg))
              (fun v hv => hw v (List.mem_cons_of_mem _ hv)) c hc

/-- The C string goes past bytes that are not NUL. -/
theorem cstring_append {a b : List UInt8} (h : ∀ c ∈ a, c ≠ 0) :
    cstring (a ++ b) = a ++ cstring b :=
  List.takeWhile_append_of_pos fun c hc => by simpa using h c hc

namespace Line

/-- The end of the line that a C string has: a comment ends at a zero byte. -/
theorem ending_lineEnd (l : Line) {eol : List UInt8} (h : eol = [] ∨ eol = [LF]) :
    LineEnd (cstring (l.ending ++ eol)) := by
  unfold ending
  cases l.comment with
  | some text =>
      have : cstring ((HASH :: text ++ if l.carriage then [CR] else []) ++ eol)
          = HASH :: cstring ((text ++ if l.carriage then [CR] else []) ++ eol) :=
        List.takeWhile_cons_of_pos (by decide)
      simp only [this]
      exact .comment _
  | none =>
      cases l.carriage <;> rcases h with rfl | rfl
      · exact .nil
      · exact .lf
      · exact .cr
      · exact .crlf

/-- What `next_tok` is given of a line. -/
theorem words (l : Line) (eol : List UInt8) (h : eol = [] ∨ eol = [LF]) :
    Words l.entry.words (cstring (l.text ++ eol)) := by
  have hbody : ∀ c ∈ spread l.gaps l.entry.words, c ≠ 0 :=
    spread_bytes (fun c hc => (ne_zero_of_ows hc).1) (fun c hc => hc.2) l.gaps_ows l.entry.isWord
  have htrail : ∀ c ∈ l.trail, c ≠ 0 := fun c hc =>
    (ne_zero_of_ows (List.all_eq_true.1 l.trail_ows c hc)).1
  have hend := l.ending_lineEnd h
  rw [text, List.append_assoc, cstring_append hbody, List.append_assoc, cstring_append htrail]
  refine words_spread (.done l.trail_ows hend) ?_ l.gaps_length l.gaps_ows l.gaps_ne l.entry.isWord
  intro c hc
  cases htr : l.trail with
  | nil =>
      rw [htr, List.nil_append] at hc
      rcases hend.head c hc with rfl | rfl | rfl <;> decide
  | cons d trail =>
      have hd := List.all_eq_true.1 l.trail_ows d (by simp [htr])
      rw [htr] at hc
      obtain rfl : d = c := by simpa using hc
      exact not_token_of_ows hd

/-- A line has no line feed within it. -/
theorem lf_not_mem (l : Line) : LF ∉ l.text := by
  have hbody : ∀ c ∈ spread l.gaps l.entry.words, c ≠ LF :=
    spread_bytes (fun c hc => (ne_zero_of_ows hc).2) (fun c hc => ne_lf_of_token hc.1) l.gaps_ows
      l.entry.isWord
  have hend : LF ∉ l.ending := by
    have hcomment := l.comment_lf
    have hhash : LF ≠ HASH := by decide
    have hcr : LF ≠ CR := by decide
    unfold ending
    cases hc : l.comment <;> cases l.carriage <;> simp_all
  simp only [text, List.mem_append, not_or]
  refine ⟨fun h => hbody LF h rfl, fun h => ?_, hend⟩
  exact (ne_zero_of_ows (List.all_eq_true.1 l.trail_ows LF h)).2 rfl

/-- A line without a byte says nothing. -/
theorem entry_of_nil (l : Line) (h : l.text = []) : l.entry.words = [] := by
  have hw := l.words [] (.inl rfl)
  rw [h] at hw
  cases hws : l.entry.words with
  | nil => rfl
  | cons w ws =>
      rw [hws] at hw
      obtain ⟨p, hp, -⟩ := hw.next
      cases hp

end Line

/-! ## Files -/

/-- The text of a file: lines with their line feeds, and the last line if it has none. -/
def fileText (lines : List Line) (last : Option Line) : List UInt8 :=
  lines.flatMap (fun l => l.text ++ [LF]) ++ (last.map Line.text).getD []

/-- `fgets` takes one line with its line feed. -/
theorem fgets_line {l text : List UInt8} (hlf : LF ∉ l) :
    ∀ {n : Nat}, l.length < n → fgets n (l ++ LF :: text) = (l ++ [LF], text) := by
  induction l with
  | nil =>
      intro n hn
      obtain ⟨m, rfl⟩ : ∃ m, n = m + 1 := ⟨n - 1, by simp at hn; omega⟩
      simp [fgets]
  | cons c l ih =>
      intro n hn
      obtain ⟨m, rfl⟩ : ∃ m, n = m + 1 := ⟨n - 1, by simp at hn; omega⟩
      have hc : c ≠ LF := fun h => hlf (h ▸ List.mem_cons_self)
      have := ih (fun h => hlf (List.mem_cons_of_mem _ h)) (n := m) (by simpa using hn)
      simp [fgets, hc, this]

/-- The last line may lack one. -/
theorem fgets_last {l : List UInt8} (hlf : LF ∉ l) :
    ∀ {n : Nat}, l.length < n → fgets n l = (l, []) := by
  induction l with
  | nil =>
      intro n hn
      obtain ⟨m, rfl⟩ : ∃ m, n = m + 1 := ⟨n - 1, by simp at hn; omega⟩
      rfl
  | cons c l ih =>
      intro n hn
      obtain ⟨m, rfl⟩ : ∃ m, n = m + 1 := ⟨n - 1, by simp at hn; omega⟩
      have hc : c ≠ LF := fun h => hlf (h ▸ List.mem_cons_self)
      have := ih (fun h => hlf (List.mem_cons_of_mem _ h)) (n := m) (by simpa using hn)
      simp [fgets, hc, this]

end TinyServer.Routing
