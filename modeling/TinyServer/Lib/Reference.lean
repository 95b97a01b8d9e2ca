import Mathlib.Data.List.DropRight
import TinyServer.Lib.Segments

/-!
# References

A reference to a resource is cut into its components at delimiters, and is resolved against
the reference that it was found in. A reference that begins with one slash, without a
fragment, keeps the authority (`resolve_rooted`), and one that begins with two slashes names
another one (`resolve_authority`).

The path of the result has no dot segments: its pieces are among those of the path that it
was made of (`removeDotSegments_pieces`), and a path without dot segments stays as it is
(`removeDotSegments_eq_self`).
-/

set_option autoImplicit false

namespace TinyServer.Lib

universe u

/-- The characters that delimit the components of a reference, and the dot. -/
structure Delimiters (α : Type u) where
  colon : α
  slash : α
  qmark : α
  hash : α
  dot : α
  distinct : [colon, slash, qmark, hash, dot].Nodup

/-- A reference, by its components. -/
structure Reference (α : Type u) where
  scheme : Option (List α)
  authority : Option (List α)
  path : List α
  query : Option (List α)
  fragment : Option (List α)
  deriving DecidableEq, Repr

variable {α : Type u} [DecidableEq α]

/-- What comes before the first `c`, and what comes after it if there is one. -/
def cut (c : α) (l : List α) : List α × Option (List α) :=
  match l.dropWhile (· != c) with
  | [] => (l, none)
  | _ :: r => (l.takeWhile (· != c), some r)

/-- Without the separator there is nothing to cut off. -/
theorem cut_of_not_mem {c : α} {l : List α} (h : c ∉ l) : cut c l = (l, none) := by
  have hall : ∀ x ∈ l, (x != c) = true := fun x hx => by
    simpa using fun he : x = c => h (he ▸ hx)
  rw [cut, List.dropWhile_eq_nil_iff.2 hall]

/-- The cut is at the first separator. -/
theorem cut_append {c : α} {l : List α} (r : List α) (h : c ∉ l) :
    cut c (l ++ c :: r) = (l, some r) := by
  have hall : ∀ x ∈ l, (x != c) = true := fun x hx => by
    simpa using fun he : x = c => h (he ▸ hx)
  have hstop : (c :: r).takeWhile (· != c) = [] ∧ (c :: r).dropWhile (· != c) = c :: r := by simp
  rw [cut, List.dropWhile_append_of_pos hall, List.takeWhile_append_of_pos hall, hstop.1, hstop.2,
    List.append_nil]

namespace Delimiters

variable (D : Delimiters α)

/-! ## Components -/

/-- A scheme ends at a colon, before the first slash. -/
def cutScheme (l : List α) : Option (List α) × List α :=
  match cut D.colon l with
  | (s, some r) => if s ≠ [] ∧ D.slash ∉ s then (some s, r) else (none, l)
  | (_, none) => (none, l)

/-- An authority follows two slashes, and ends before the next one. -/
def cutAuthority : List α → Option (List α) × List α
  | a :: b :: r =>
      if a = D.slash ∧ b = D.slash then
        (some (r.takeWhile (· != D.slash)), r.dropWhile (· != D.slash))
      else (none, a :: b :: r)
  | l => (none, l)

/-- The components of a reference. -/
def parse (l : List α) : Reference α :=
  let f := cut D.hash l
  let q := cut D.qmark f.1
  let s := D.cutScheme q.1
  let a := D.cutAuthority s.2
  ⟨s.1, a.1, a.2, q.2, f.2⟩

/-! ## Resolution -/

/-- A path up to its last slash, without it. -/
def parent (path : List α) : List α := (path.rdropWhile (· != D.slash)).dropLast

/-- A segment that does not go down. -/
def Dots (s : List α) : Prop := s = [D.dot] ∨ s = [D.dot, D.dot]

instance Dots.decidable (s : List α) : Decidable (D.Dots s) :=
  inferInstanceAs (Decidable (s = [D.dot] ∨ s = [D.dot, D.dot]))

/-- The loop that takes the dot segments out of a path, one segment in a turn. -/
def dotLoop : Nat → List α → List α → List α
  | 0, _, out => out
  | _ + 1, [], out => out
  | n + 1, c :: input, out =>
      if c = D.slash then
        let seg := input.takeWhile (· != D.slash)
        let rest := input.dropWhile (· != D.slash)
        if seg = [D.dot] then dotLoop n (if rest = [] then [D.slash] else rest) out
        else if seg = [D.dot, D.dot] then
          dotLoop n (if rest = [] then [D.slash] else rest) (D.parent out)
        else dotLoop n rest (out ++ D.slash :: seg)
      else
        let seg := (c :: input).takeWhile (· != D.slash)
        let rest := (c :: input).dropWhile (· != D.slash)
        if D.Dots seg then dotLoop n rest.tail out else dotLoop n rest (out ++ seg)

/-- A path without its dot segments. -/
def removeDotSegments (path : List α) : List α := D.dotLoop path.length path []

/-- A relative path below the one that it was found at. -/
def merge (base : Reference α) (path : List α) : List α :=
  if base.authority ≠ none ∧ base.path = [] then D.slash :: path
  else base.path.rdropWhile (· != D.slash) ++ path

/-- What `r` refers to, found at `base`. -/
def resolve (base r : Reference α) : Reference α :=
  if r.scheme ≠ none then { r with path := D.removeDotSegments r.path }
  else if r.authority ≠ none then
    { r with scheme := base.scheme, path := D.removeDotSegments r.path }
  else
    { scheme := base.scheme
      authority := base.authority
      path :=
        if r.path = [] then base.path
        else if r.path.head? = some D.slash then D.removeDotSegments r.path
        else D.removeDotSegments (D.merge base r.path)
      query := if r.path = [] ∧ r.query = none then base.query else r.query
      fragment := r.fragment }

section Parse

variable {D} {l h : List α} {q f : Option (List α)}

/-- What begins with a slash has no scheme. -/
theorem cutScheme_rooted (hslash : h.head? = some D.slash) : D.cutScheme h = (none, h) := by
  obtain ⟨l, rfl⟩ : ∃ l, h = D.slash :: l := by
    cases h with
    | nil => cases hslash
    | cons x l => exact ⟨l, by rw [Option.some.inj hslash]⟩
  have hne : D.slash ≠ D.colon := by
    have hdistinct := D.distinct
    simp only [List.nodup_cons, List.mem_cons, not_or] at hdistinct
    exact fun he => hdistinct.1.1 he.symm
  unfold cutScheme cut
  rw [List.dropWhile_cons_of_pos (by simpa using hne), List.takeWhile_cons_of_pos (by simpa using hne)]
  cases l.dropWhile (· != D.colon) with
  | nil => rfl
  | cons y r =>
      dsimp only
      rw [if_neg fun hmem => hmem.2 List.mem_cons_self]

/-- A reference that begins with a slash, by what is before its query and its fragment. -/
theorem parse_rooted {x : List α} (hf : cut D.hash l = (x, f)) (hq : cut D.qmark x = (h, q))
    (hslash : h.head? = some D.slash) :
    D.parse l = ⟨none, (D.cutAuthority h).1, (D.cutAuthority h).2, q, f⟩ := by
  simp only [parse, hf, hq, cutScheme_rooted hslash]

/-- What does not begin with two slashes has no authority. -/
theorem cutAuthority_none (hdouble : ¬ [D.slash, D.slash] <+: h) : D.cutAuthority h = (none, h) := by
  match h with
  | [] => rfl
  | [_] => rfl
  | a :: b :: r =>
      rw [cutAuthority, if_neg]
      rintro ⟨rfl, rfl⟩
      exact hdouble ⟨r, rfl⟩

/-- After two slashes there is an authority, up to the next slash. -/
theorem cutAuthority_some (r : List α) : D.cutAuthority (D.slash :: D.slash :: r)
    = (some (r.takeWhile (· != D.slash)), r.dropWhile (· != D.slash)) := by
  rw [cutAuthority, if_pos ⟨rfl, rfl⟩]

end Parse

/-! ## Dot segments -/

section Dots

variable {D}

/-- The parent of a path is what comes before its last slash. -/
theorem parent_spec (path : List α) :
    D.parent path = [] ∨ ∃ seg, path = D.parent path ++ D.slash :: seg := by
  by_cases hnil : path.rdropWhile (· != D.slash) = []
  · left
    rw [parent, hnil]
    rfl
  · right
    obtain ⟨t, ht⟩ := path.rdropWhile_prefix (· != D.slash)
    have hlast := List.rdropWhile_last_not (· != D.slash) path hnil
    refine ⟨t, ?_⟩
    have hslash : (path.rdropWhile (· != D.slash)).getLast hnil = D.slash := by simpa using hlast
    conv_lhs => rw [← ht, ← List.dropLast_append_getLast hnil, hslash]
    rw [parent, List.append_assoc, List.singleton_append]

/-- The segments of the parent are segments of the path. -/
theorem parent_pieces (path : List α) :
    (pieces D.slash (D.parent path)).Sublist (pieces D.slash path) := by
  rcases D.parent_spec path with h | ⟨seg, h⟩
  · rw [h]
    exact List.nil_sublist _
  · conv_rhs => rw [h]
    rw [pieces_append]
    exact List.sublist_append_left _ _

/-- A path that is empty, or begins with a slash. -/
def Rooted (D : Delimiters α) (path : List α) : Prop := path = [] ∨ path.head? = some D.slash

/-- From a slash on a path is rooted. -/
theorem rooted_dropWhile (l : List α) : D.Rooted (l.dropWhile (· != D.slash)) := by
  have hhead := List.head?_dropWhile_not (· != D.slash) l
  cases hrest : l.dropWhile (· != D.slash) with
  | nil => exact .inl rfl
  | cons x r =>
      rw [hrest] at hhead
      exact .inr (congrArg some (by simpa using hhead))

/-- The pieces of the result of the loop. -/
theorem dotLoop_pieces (n : Nat) : ∀ {input out : List α}, input.length ≤ n → D.Rooted input →
    (pieces D.slash (D.dotLoop n input out)).Sublist
      (pieces D.slash out ++ (pieces D.slash input).filter fun s => ¬ D.Dots s) := by
  induction n with
  | zero =>
      intro input out hn _
      exact List.sublist_append_left _ _
  | succ n ih =>
      intro input out hn hrooted
      cases input with
      | nil => exact List.sublist_append_left _ _
      | cons c input =>
          obtain rfl : c = D.slash := by
            rcases hrooted with h | h
            · cases h
            · exact Option.some.inj h
          rw [dotLoop, if_pos rfl, pieces_sep_cons, pieces_span input, List.filter_append]
          have hlen := congrArg List.length
            (@List.takeWhile_append_dropWhile α (· != D.slash) input)
          have hseg : D.slash ∉ input.takeWhile (· != D.slash) := not_mem_takeWhile_ne input
          have hrest := D.rooted_dropWhile input
          rw [List.length_cons] at hn
          dsimp only
          generalize input.takeWhile (· != D.slash) = seg at hlen hseg ⊢
          generalize input.dropWhile (· != D.slash) = rest at hlen hrest ⊢
          rw [List.length_append] at hlen
          -- What follows a dot segment keeps its slash, also where nothing follows it.
          have hnext : D.Dots seg → ∀ out', (pieces D.slash out').Sublist (pieces D.slash out) →
              (pieces D.slash (D.dotLoop n (if rest = [] then [D.slash] else rest) out')).Sublist
                (pieces D.slash out ++ ((pieces D.slash seg).filter (fun s => ¬ D.Dots s) ++
                  (pieces D.slash rest).filter fun s => ¬ D.Dots s)) := by
            intro hdots out' hout
            have hpos : 0 < seg.length := by
              rcases hdots with rfl | rfl
              · exact Nat.one_pos
              · exact Nat.two_pos
            have hdrop : (pieces D.slash seg).filter (fun s => ¬ D.Dots s) = [] := by
              rw [pieces_of_not_mem (List.length_pos_iff.1 hpos) hseg,
                List.filter_cons_of_neg (by simpa using hdots)]
              rfl
            have hrooted' : D.Rooted (if rest = [] then [D.slash] else rest) := by
              split
              · exact .inr rfl
              · exact hrest
            have hpieces : pieces D.slash (if rest = [] then [D.slash] else rest)
                = pieces D.slash rest := by
              split
              · rename_i hnil
                rw [hnil, pieces_sep_cons]
              · rfl
            have hloop := @ih (if rest = [] then [D.slash] else rest) out' (by
              split
              · rw [List.length_singleton]
                omega
              · omega) hrooted'
            rw [hpieces] at hloop
            rw [hdrop, List.nil_append]
            exact hloop.trans (hout.append (List.Sublist.refl _))
          by_cases hone : seg = [D.dot]
          · rw [if_pos hone]
            exact hnext (.inl hone) out (List.Sublist.refl _)
          rw [if_neg hone]
          by_cases htwo : seg = [D.dot, D.dot]
          · rw [if_pos htwo]
            exact hnext (.inr htwo) (D.parent out) (D.parent_pieces out)
          rw [if_neg htwo]
          have hkept : (pieces D.slash seg).filter (fun s => ¬ D.Dots s) = pieces D.slash seg := by
            refine List.filter_eq_self.2 fun s hs => ?_
            have hself : s = seg := by
              by_cases hnil : seg = []
              · rw [hnil] at hs
                cases hs
              · rw [pieces_of_not_mem hnil hseg] at hs
                exact List.mem_singleton.1 hs
            simpa [Dots, hself] using ⟨hone, htwo⟩
          have hloop := @ih rest (out ++ D.slash :: seg) (by omega) hrest
          rw [pieces_append, List.append_assoc] at hloop
          rw [hkept]
          exact hloop

/-- The pieces that are left are pieces of the path, and none of them is a dot segment. -/
theorem removeDotSegments_pieces {path : List α} (hrooted : D.Rooted path) :
    (pieces D.slash (D.removeDotSegments path)).Sublist
      ((pieces D.slash path).filter fun s => ¬ D.Dots s) :=
  D.dotLoop_pieces path.length le_rfl hrooted

/-- Without dot segments nothing is removed. -/
theorem dotLoop_eq (n : Nat) : ∀ {input out : List α}, input.length ≤ n → D.Rooted input →
    (∀ s ∈ pieces D.slash input, ¬ D.Dots s) → D.dotLoop n input out = out ++ input := by
  induction n with
  | zero =>
      intro input out hn _ _
      rw [List.length_eq_zero_iff.1 (Nat.le_zero.1 hn), List.append_nil]
      rfl
  | succ n ih =>
      intro input out hn hrooted hdots
      cases input with
      | nil => exact (List.append_nil out).symm
      | cons c input =>
          obtain rfl : c = D.slash := by
            rcases hrooted with h | h
            · cases h
            · exact Option.some.inj h
          rw [pieces_sep_cons, pieces_span input] at hdots
          rw [dotLoop, if_pos rfl]
          have hsplit := @List.takeWhile_append_dropWhile α (· != D.slash) input
          have hseg : D.slash ∉ input.takeWhile (· != D.slash) := not_mem_takeWhile_ne input
          have hrest := D.rooted_dropWhile input
          have hlen := congrArg List.length hsplit
          rw [List.length_cons] at hn
          dsimp only
          generalize input.takeWhile (· != D.slash) = seg at hsplit hlen hseg hdots ⊢
          generalize input.dropWhile (· != D.slash) = rest at hsplit hlen hrest hdots ⊢
          rw [List.length_append] at hlen
          have hnot : ¬ D.Dots seg := by
            intro h
            have hne : seg ≠ [] := by
              rcases h with rfl | rfl
              · exact List.cons_ne_nil _ _
              · exact List.cons_ne_nil _ _
            refine hdots seg (List.mem_append_left _ ?_) h
            rw [pieces_of_not_mem hne hseg]
            exact List.mem_singleton_self seg
          rw [if_neg fun h => hnot (.inl h), if_neg fun h => hnot (.inr h),
            ih (by omega) hrest fun s hs => hdots s (List.mem_append_right _ hs), ← hsplit]
          simp

/-- A path without dot segments stays as it is. -/
theorem removeDotSegments_eq_self {path : List α} (hrooted : D.Rooted path)
    (hdots : ∀ s ∈ pieces D.slash path, ¬ D.Dots s) : D.removeDotSegments path = path :=
  D.dotLoop_eq path.length le_rfl hrooted hdots

end Dots

/-! ## What a rooted reference resolves to -/

section Resolve

variable {D} {base : Reference α} {path : List α} {q f : Option (List α)}

/-- A reference with a rooted path takes the authority of its base. -/
theorem resolve_rooted (hslash : path.head? = some D.slash) :
    D.resolve base ⟨none, none, path, q, f⟩
      = ⟨base.scheme, base.authority, D.removeDotSegments path, q, f⟩ := by
  have hne : path ≠ [] := by
    rintro rfl
    cases hslash
  simp [resolve, hslash, hne]

/-- A reference with an authority takes the scheme of its base only. -/
theorem resolve_authority (a : List α) :
    D.resolve base ⟨none, some a, path, q, f⟩
      = ⟨base.scheme, some a, D.removeDotSegments path, q, f⟩ := by
  simp [resolve]

end Resolve

end Delimiters

end TinyServer.Lib
