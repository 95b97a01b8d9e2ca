import TinyServer.Static.Tree

/-!
# A directory of a tree served by itself

A path below `d` decodes, normalizes and is found below the root of the tree as the rest of
it is below `d`. So the tree and its part below `d` give the same answers
(`answer_below`), but for one length: the path of an index file below the root is longer by
the name of `d`, and an index file that is a directory is looked into only where the
longer path fits its buffer (`IndexTooLong`).
-/

set_option autoImplicit false

namespace TinyServer.Static

open TinyServer.Http TinyServer.Lib

/-- A name of unreserved characters that is no dotfile. -/
structure PlainName (d : List UInt8) : Prop where
  nonempty : d ≠ []
  dot : d.head? ≠ some DOT
  chars : ∀ c ∈ d, (0x30 ≤ c ∧ c ≤ 0x39) ∨ (0x41 ≤ c ∧ c ≤ 0x5A) ∨ (0x61 ≤ c ∧ c ≤ 0x7A) ∨
    c ∈ [0x2D, 0x2E, 0x5F, 0x7E]

namespace PlainName

variable {d : List UInt8}

/-- An unreserved character is none that the passes over a path look for. -/
theorem char (h : PlainName d) {c : UInt8} (hc : c ∈ d) :
    c ≠ SLASH ∧ c ≠ BACKSLASH ∧ c ≠ 0 ∧ c ≠ PERCENT ∧ ¬ (c < 0x20 ∨ c = DEL) := by
  have hchar := h.chars c hc
  simp only [List.mem_cons, List.not_mem_nil, or_false] at hchar
  simp only [SLASH, BACKSLASH, PERCENT, DEL, UInt8.le_iff_toNat_le, UInt8.lt_iff_toNat_lt,
    ← UInt8.toNat_inj, ne_eq, UInt8.reduceToNat] at hchar ⊢
  omega

theorem slash (h : PlainName d) : SLASH ∉ d := fun hc => (h.char hc).1 rfl

theorem plain (h : PlainName d) (allowDotfiles : Bool) : PlainSegment allowDotfiles d where
  nonempty := h.nonempty
  dot := by
    rintro rfl
    exact h.dot rfl
  dotdot := by
    rintro rfl
    exact h.dot rfl
  bytes := fun c hc =>
    have hchar := h.char hc
    ⟨hchar.1, hchar.2.1, hchar.2.2.1, hchar.2.2.2.2⟩
  dotfile := fun _ => h.dot

/-- Its characters stand for themselves. -/
theorem decodes (h : PlainName d) {url decoded : List UInt8} :
    Decodes (SLASH :: (d ++ url)) decoded ↔
      ∃ rest, decoded = SLASH :: (d ++ rest) ∧ Decodes url rest := by
  have hplain : ∀ (s : List UInt8), (∀ c ∈ s, c ≠ PERCENT ∧ ¬ (c < 0x20 ∨ c = DEL)) →
      ∀ decoded, Decodes (s ++ url) decoded ↔ ∃ rest, decoded = s ++ rest ∧ Decodes url rest := by
    intro s
    induction s with
    | nil => exact fun _ decoded => ⟨fun hd => ⟨decoded, rfl, hd⟩, by rintro ⟨_, rfl, hd⟩; exact hd⟩
    | cons c s ih =>
        intro hs decoded
        have hc := hs c List.mem_cons_self
        have ih := ih fun x hx => hs x (List.mem_cons_of_mem c hx)
        constructor
        · rw [List.cons_append]
          generalize hl : s ++ url = l
          intro hd
          cases hd with
          | byte _ _ _ hd =>
              rw [← hl] at hd
              obtain ⟨rest, rfl, hrest⟩ := (ih _).1 hd
              exact ⟨rest, rfl, hrest⟩
          | escape => exact absurd rfl hc.1
        · rintro ⟨rest, rfl, hrest⟩
          exact .byte c hc.1 hc.2 ((ih _).2 ⟨rest, rfl, hrest⟩)
  refine hplain (SLASH :: d) (fun c hc => ?_) decoded
  rcases List.mem_cons.1 hc with rfl | hc
  · decide
  · exact (h.char hc).2.2.2

/-- The first piece of a path below `d`. -/
theorem pieces (h : PlainName d) {rest : List UInt8} (hrest : rest = [] ∨ rest.head? = some SLASH) :
    pieces SLASH (SLASH :: (d ++ rest)) = d :: Lib.pieces SLASH rest := by
  have hall : ∀ c ∈ d, (c != SLASH) = true := fun c hc => by simpa using (h.char hc).1
  have htake : (d ++ rest).takeWhile (· != SLASH) = d := by
    rw [List.takeWhile_append_of_pos hall]
    rcases hrest with rfl | hrest
    · simp
    · cases rest with
      | nil => cases hrest
      | cons c rest =>
          rw [List.takeWhile_cons_of_neg (by simp [Option.some.inj hrest]), List.append_nil]
  have hdrop : (d ++ rest).dropWhile (· != SLASH) = rest := by
    have happ := List.takeWhile_append_dropWhile (p := (· != SLASH)) (l := d ++ rest)
    rw [htake] at happ
    exact List.append_cancel_left happ
  rw [pieces_sep_cons]
  cases d with
  | nil => exact absurd rfl h.nonempty
  | cons c d =>
      rw [List.cons_append] at htake hdrop ⊢
      rw [pieces_takeWhile _ (h.char List.mem_cons_self).1, htake, hdrop]

end PlainName

/-! ## Segments -/

theorem joined_cons (s : List UInt8) {segs : List (List UInt8)} (hne : segs ≠ []) :
    joined (s :: segs) = s ++ SLASH :: joined segs := by
  cases segs with
  | nil => exact absurd rfl hne
  | cons s' segs =>
      simp only [joined, List.intercalate_cons_cons, List.append_assoc, List.singleton_append]

/-- A path is no shorter than its pieces. -/
theorem joined_pieces_le (n : Nat) : ∀ {l : List UInt8}, l.length ≤ n →
    (joined (pieces SLASH l)).length ≤ l.length := by
  induction n with
  | zero =>
      intro l hn
      rw [List.length_eq_zero_iff.1 (Nat.le_zero.1 hn)]
      exact le_rfl
  | succ n ih =>
      intro l hn
      cases l with
      | nil => exact le_rfl
      | cons c l =>
          by_cases hc : c = SLASH
          · rw [hc, pieces_sep_cons]
            exact (ih (Nat.le_of_succ_le_succ hn)).trans (Nat.le_succ _)
          · rw [pieces_takeWhile l hc]
            have hsplit := List.takeWhile_append_dropWhile (p := (· != SLASH)) (l := c :: l)
            have hlast := List.head?_dropWhile_not (· != SLASH) (c :: l)
            generalize (c :: l).takeWhile (· != SLASH) = seg at hsplit
            generalize (c :: l).dropWhile (· != SLASH) = rest at hsplit hlast
            have hlen := congrArg List.length hsplit
            rw [List.length_append] at hlen
            by_cases hnone : pieces SLASH rest = []
            · rw [hnone, joined, List.intercalate_singleton]
              omega
            · rw [joined_cons seg hnone]
              -- What follows a piece begins with a separator.
              cases rest with
              | nil => exact absurd rfl hnone
              | cons y rest =>
                  have hy : y = SLASH := by simpa using hlast
                  simp only [List.length_cons] at hlen hn
                  rw [hy, pieces_sep_cons]
                  have hrest := @ih rest (by omega)
                  simp only [List.length_append, List.length_cons]
                  omega

/-- The path of the file that `normalize_path` names is longer by the index file at most. -/
theorem joined_pathSegments_le (decoded : List UInt8) :
    (joined (pathSegments decoded)).length ≤ decoded.length + 11 := by
  have hle := joined_pieces_le decoded.length (le_refl decoded.length)
  have happ : _ = joined (pieces SLASH decoded ++ [cstr "index.html"]) :=
    joined_concat (fun s hs => (mem_pieces hs).1) (cstr "index.html")
  rw [pathSegments]
  by_cases hlast : decoded.getLast? = some SLASH
  · rw [if_pos hlast, ← happ, List.length_append]
    have hindex : (cstr "index.html").length = 10 := by decide
    split
    · omega
    · rw [List.length_append, List.length_singleton]
      omega
  · rw [if_neg hlast, List.append_nil]
    omega

/-! ## Paths below `d` -/

section Below

variable {d url decoded rel : List UInt8} {allowDotfiles : Bool} {cap : Nat}

theorem PlainName.pathSegments (h : PlainName d) (hrest : decoded.head? = some SLASH) :
    pathSegments (SLASH :: (d ++ decoded)) = d :: Static.pathSegments decoded := by
  have hne : decoded ≠ [] := by
    rintro rfl
    cases hrest
  have hlast : (SLASH :: (d ++ decoded)).getLast? = decoded.getLast? :=
    List.getLast?_append_of_ne_nil (SLASH :: d) hne
  rw [Static.pathSegments, Static.pathSegments, h.pieces (.inr hrest), hlast, List.cons_append]

/-- A path below `d` is normalized as the rest of it is, below `d`. -/
theorem PlainName.normalizePath (h : PlainName d) (hrest : decoded.head? = some SLASH)
    (hctl : ∀ c ∈ decoded, ¬ (c < 0x20 ∨ c = DEL)) (hcap : d.length + decoded.length + 12 < cap) :
    normalizePath allowDotfiles (SLASH :: (d ++ decoded)) cap
      = (normalizePath allowDotfiles decoded cap).map (d ++ SLASH :: ·) := by
  have hctl' : ∀ c ∈ SLASH :: (d ++ decoded), ¬ (c < 0x20 ∨ c = DEL) := by
    intro c hc
    rcases List.mem_cons.1 hc with rfl | hc
    · decide
    · rcases List.mem_append.1 hc with hc | hc
      · exact (h.char hc).2.2.2.2
      · exact hctl c hc
  have hle := joined_pathSegments_le decoded
  have hjoin : joined (d :: Static.pathSegments decoded)
      = d ++ SLASH :: joined (Static.pathSegments decoded) := joined_cons d (pathSegments_ne_nil hrest)
  by_cases hplain : ∀ s ∈ Static.pathSegments decoded, PlainSegment allowDotfiles s
  · have hin : Static.normalizePath allowDotfiles decoded cap
        = some (joined (Static.pathSegments decoded)) :=
      (normalizePath_iff hctl).2 ⟨hrest, hplain, rfl, by omega⟩
    rw [hin, Option.map_some, ← hjoin]
    refine (normalizePath_iff hctl').2 ⟨rfl, ?_, by rw [h.pathSegments hrest], ?_⟩
    · rw [h.pathSegments hrest]
      intro s hs
      rcases List.mem_cons.1 hs with rfl | hs
      · exact h.plain allowDotfiles
      · exact hplain s hs
    · rw [hjoin, List.length_append, List.length_cons]
      omega
  · have hout : Static.normalizePath allowDotfiles decoded cap = none := by
      refine Option.eq_none_iff_forall_ne_some.2 fun rel hrel => ?_
      exact hplain ((normalizePath_iff hctl).1 hrel).2.1
    rw [hout, Option.map_none]
    refine Option.eq_none_iff_forall_ne_some.2 fun rel hrel => hplain fun s hs => ?_
    have hall := ((normalizePath_iff hctl').1 hrel).2.1
    rw [h.pathSegments hrest] at hall
    exact hall s (List.mem_cons_of_mem d hs)

/-- The type of a file is decided by its last name. -/
theorem extensionLoop_below (p r : List UInt8) (ext : Option (List UInt8)) :
    extensionLoop (p ++ SLASH :: r) ext = extensionLoop r none := by
  induction p generalizing ext with
  | nil => rw [List.nil_append, extensionLoop, if_pos rfl]
  | cons c p ih =>
      rw [List.cons_append, extensionLoop, ih, ih, ih, ite_self, ite_self]

theorem mimeFromPath_below (p r : List UInt8) :
    mimeFromPath (p ++ SLASH :: r) = mimeFromPath r := by
  rw [mimeFromPath, mimeFromPath, extensionLoop_below]

theorem PlainName.look (h : PlainName d) (T : Tree) (rel : List UInt8) :
    T.look (d ++ SLASH :: rel) = (T.below d).look rel := by
  rw [Tree.look, Tree.look, Tree.below, List.splitOn_append_cons_self_of_not_mem h.slash]

/-- A path below `d` decodes as the rest of it does, below `d`. -/
theorem PlainName.percentDecode (h : PlainName d) {inp inp' : List UInt8} {len len' : UInt16}
    (hcap : 3 * cap + 3 < 65536) (hmem : len.toNat ≤ inp.length) (hmem' : len'.toNat ≤ inp'.length)
    (hpath : inp.take len.toNat = SLASH :: (d ++ inp'.take len'.toNat)) (hne : inp'.take len'.toNat ≠ [])
    (hshort : len.toNat < cap) :
    percentDecode inp len cap = (percentDecode inp' len' cap).map fun s => SLASH :: (d ++ s) := by
  have hlen := congrArg List.length hpath
  simp only [List.length_cons, List.length_append, List.length_take] at hlen
  cases hin : Static.percentDecode inp' len' cap with
  | none =>
      refine Option.eq_none_iff_forall_ne_some.2 fun s hs => ?_
      obtain ⟨hd, -, -⟩ := (percentDecode_iff hcap hmem).1 hs
      rw [hpath] at hd
      obtain ⟨rest, -, hrest⟩ := h.decodes.1 hd
      have hle := hrest.length_le
      rw [List.length_take] at hle
      have hsome : Static.percentDecode inp' len' cap = some rest := by
        refine (percentDecode_iff hcap hmem').2 ⟨hrest, ?_, by omega⟩
        rintro rfl
        generalize inp'.take len'.toNat = url at hrest hne
        cases hrest
        exact hne rfl
      rw [hin] at hsome
      cases hsome
  | some s =>
      obtain ⟨hd, -, -⟩ := (percentDecode_iff hcap hmem').1 hin
      have hle := hd.length_le
      rw [List.length_take] at hle
      refine (percentDecode_iff hcap hmem).2 ⟨?_, List.cons_ne_nil _ _, ?_⟩
      · rw [hpath]
        exact h.decodes.2 ⟨s, rfl, hd⟩
      · simp only [List.length_cons, List.length_append]
        omega

end Below

/-! ## Answers -/

/-- The index file that `decoded` names is a directory, and the path of the index file of
that one is too long for the buffer. -/
def Tree.IndexTooLong (T : Tree) (allowDotfiles : Bool) (decoded : List UInt8) : Prop :=
  ∃ rel n, normalizePath allowDotfiles decoded STATIC_PATH_MAX = some rel ∧
    decoded.getLast? = some SLASH ∧ T.look rel = .node n ∧ n.stat.kind = .directory ∧
      STATIC_PATH_MAX ≤ rel.length + 11

section Answers

variable {T : Tree} {d decoded : List UInt8} {allowDotfiles : Bool} {req : HttpRequest}
  {query redir : List UInt8}

theorem Answer.regular_below (req : HttpRequest) (p rel : List UInt8) (n : Node) :
    Answer.regular req (p ++ SLASH :: rel) n = Answer.regular req rel n := by
  rw [regular, regular, mimeFromPath_below]

theorem Tree.answerIndex_below (hd : PlainName d) {rel : List UInt8} (hrest : decoded ≠ [])
    (hlen : decoded.getLast? = some SLASH → ¬ STATIC_PATH_MAX ≤ (d ++ SLASH :: rel).length + 11) :
    T.answerIndex req query (SLASH :: (d ++ decoded)) (d ++ SLASH :: rel) redir
      = (T.below d).answerIndex req query decoded rel redir := by
  have hlast : (SLASH :: (d ++ decoded)).getLast? = decoded.getLast? :=
    List.getLast?_append_of_ne_nil (SLASH :: d) hrest
  rw [answerIndex, answerIndex, hlast]
  by_cases hslash : decoded.getLast? ≠ some SLASH
  · rw [if_pos hslash, if_pos hslash]
  · have hfits := hlen (not_not.1 hslash)
    have hfits' : ¬ STATIC_PATH_MAX ≤ rel.length + 11 := by
      rw [List.length_append, List.length_cons] at hfits
      omega
    rw [if_neg hslash, if_neg hslash, if_neg hfits, if_neg hfits', List.append_assoc,
      List.cons_append, hd.look]
    cases (T.below d).look (rel ++ cstr "/index.html") with
    | node n => exact Answer.regular_below req d _ n
    | notFound | forbidden | failed => rfl

theorem Tree.answerPath_below (hd : PlainName d) {rel : List UInt8} (hrest : decoded ≠ [])
    (hlen : ∀ n, (T.below d).look rel = .node n → n.stat.kind = .directory →
      decoded.getLast? = some SLASH → ¬ STATIC_PATH_MAX ≤ (d ++ SLASH :: rel).length + 11) :
    T.answerPath req query (SLASH :: (d ++ decoded)) (d ++ SLASH :: rel) redir
      = (T.below d).answerPath req query decoded rel redir := by
  rw [answerPath, answerPath, hd.look]
  cases hlook : (T.below d).look rel with
  | node n =>
      dsimp only
      by_cases hkind : n.stat.kind = .directory
      · rw [if_pos hkind, if_pos hkind]
        exact answerIndex_below hd hrest (hlen n hlook hkind)
      · rw [if_neg hkind, if_neg hkind]
        exact Answer.regular_below req d rel n
  | notFound | forbidden | failed => rfl

/-- The tree answers below `d` as its part below `d` does, but where the path of an index
file is too long for it. -/
theorem Tree.answer_below (hd : PlainName d) (hrest : decoded.head? = some SLASH)
    (hctl : ∀ c ∈ decoded, ¬ (c < 0x20 ∨ c = DEL))
    (hshort : d.length + decoded.length + 12 < STATIC_PATH_MAX)
    (hlen : ¬ T.IndexTooLong allowDotfiles (SLASH :: (d ++ decoded))) :
    T.answer allowDotfiles req query redir (some (SLASH :: (d ++ decoded)))
      = (T.below d).answer allowDotfiles req query redir (some decoded) := by
  have hne : decoded ≠ [] := by
    rintro rfl
    cases hrest
  have hlast : (SLASH :: (d ++ decoded)).getLast? = decoded.getLast? :=
    List.getLast?_append_of_ne_nil (SLASH :: d) hne
  have hnorm : normalizePath allowDotfiles (SLASH :: (d ++ decoded)) STATIC_PATH_MAX
      = (normalizePath allowDotfiles decoded STATIC_PATH_MAX).map (d ++ SLASH :: ·) :=
    hd.normalizePath hrest hctl hshort
  rw [answer, answer, hnorm]
  cases hrel : normalizePath allowDotfiles decoded STATIC_PATH_MAX with
  | none => rfl
  | some rel =>
      rw [hrel, Option.map_some] at hnorm
      refine answerPath_below hd hne fun n hlook hkind hslash hlong => hlen ?_
      exact ⟨d ++ SLASH :: rel, n, hnorm, hlast.trans hslash, (hd.look T rel).trans hlook, hkind, hlong⟩

/-- For the name of a directory alone the tree redirects. -/
theorem Tree.answer_name (hd : PlainName d) (hshort : d.length + 2 < STATIC_PATH_MAX) {n : Node}
    (hn : T [d] = .node n) (hkind : n.stat.kind = .directory) :
    T.answer allowDotfiles req query redir (some (SLASH :: d)) = .redirect req query redir := by
  have hlast : (SLASH :: d).getLast? ≠ some SLASH := by
    intro h
    rw [List.getLast?_cons_of_ne_nil hd.nonempty] at h
    exact hd.slash (List.mem_of_getLast? h)
  have hsegs : pathSegments (SLASH :: d) = [d] := by
    have hpieces := hd.pieces (.inl (rfl : ([] : List UInt8) = []))
    rw [List.append_nil] at hpieces
    rw [pathSegments, hpieces, if_neg hlast]
    rfl
  have hctl : ∀ c ∈ SLASH :: d, ¬ (c < 0x20 ∨ c = DEL) := by
    intro c hc
    rcases List.mem_cons.1 hc with rfl | hc
    · decide
    · exact (hd.char hc).2.2.2.2
  have hnorm : normalizePath allowDotfiles (SLASH :: d) STATIC_PATH_MAX = some d := by
    refine (normalizePath_iff hctl).2 ⟨rfl, ?_, by rw [hsegs]; exact List.intercalate_singleton.symm, by omega⟩
    rw [hsegs]
    intro s hs
    rw [List.mem_singleton.1 hs]
    exact hd.plain allowDotfiles
  have hlook : T.look d = .node n := by
    rw [look, List.splitOn_eq_singleton hd.slash]
    exact hn
  simp only [answer, hnorm, answerPath, hlook, hkind, if_true, answerIndex, if_pos hlast]

/-- There the tree finds nothing. -/
theorem Tree.IndexTooLong.answer (h : T.IndexTooLong allowDotfiles decoded) :
    T.answer allowDotfiles req query redir (some decoded) = .notFound req := by
  obtain ⟨rel, n, hrel, hslash, hlook, hkind, hlong⟩ := h
  simp only [Tree.answer, hrel, answerPath, hlook, hkind, if_true, answerIndex, hslash, ne_eq,
    not_true, if_false, hlong]

end Answers

/-- Below a few directories with long names, a path that ends with a slash. -/
def deepPath (n : Nat) : List UInt8 :=
  (List.replicate n (List.replicate 253 0x61 ++ [SLASH])).flatten ++ cstr "aaaaaaaa/"

/-- Every index file is a directory that has an index file. -/
def indexedTree : Tree := fun names =>
  if names.getLast? ≠ some (cstr "index.html") then .notFound
  else if names.dropLast.getLast? = some (cstr "index.html") then
    .node ⟨⟨.regular, 5, 0, 0, 2⟩, cstr "hello"⟩
  else .node ⟨⟨.directory, 4096, 0, 0, 1⟩, []⟩

set_option maxRecDepth 20000 in
/-- The path of 4076 bytes is too long for the tree, the rest of it is not for its part. -/
theorem answer_below_deep : (cstr "/d/" ++ deepPath 16).length = 4076 ∧
    (indexedTree.answer false .zero [] [] (some (cstr "/d/" ++ deepPath 16))).status = 404 ∧
    ((indexedTree.below (cstr "d")).answer false .zero [] []
      (some (cstr "/" ++ deepPath 16))).status = 200 := by
  decide +kernel

end TinyServer.Static
