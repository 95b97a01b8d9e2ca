import TinyServer.Routing.ConfigText
import TinyServer.Routing.Selected

/-!
# Loading a written site (`add_route`, `site_check`, `tiny_site_load`)

A site that meets the limits, written as a file in any layout, is loaded as it is, with a
slash added to the prefixes of directories (`tinySiteLoad_fileText`). After each line the
table has the routes of the lines so far (`Progress`).
-/

set_option autoImplicit false

namespace TinyServer.Routing

open TinyServer.Http TinyServer.Static

variable {resolve : List UInt8 → List UInt8 → Option (List UInt8)}
variable {kinds : Nat → Option FileKind}

/-! ## One route -/

namespace RouteSpec

/-- The address of a proxy route, as `parse_upstream` stores it. -/
def address (resolve : List UInt8 → List UInt8 → Option (List UInt8)) (r : RouteSpec) :
    List UInt8 × Nat :=
  if r.type = .proxy then (parseUpstream resolve r.target).getD ([], 0) else ([], 0)

/-- The route that `add_route` makes. -/
def added (resolve : List UInt8 → List UInt8 → Option (List UInt8)) (r : RouteSpec) : TinyRoute :=
  { TinyRoute.cleared with
    type := r.type
    pathPrefix := r.pathPrefix
    prefixLen := r.pathPrefix.length
    target := r.target
    targetLen := r.target.length
    upstream := (r.address resolve).1
    upstreamLen := (r.address resolve).2 }

/-- The route that is loaded: the prefix of a directory has its slash. -/
def loaded (resolve : List UInt8 → List UInt8 → Option (List UInt8)) (kind : Option FileKind)
    (r : RouteSpec) : TinyRoute :=
  { r.added resolve with
    pathPrefix := (r.added resolve).slashedPrefix kind
    prefixLen := ((r.added resolve).slashedPrefix kind).length }

/-- The file system and the resolver accept the target. -/
structure Accepts (resolve : List UInt8 → List UInt8 → Option (List UInt8))
    (kind : Option FileKind) (r : RouteSpec) : Prop where
  upstream : r.type = .proxy → (parseUpstream resolve r.target).isSome
  stat : r.type = .static → kind = some .directory ∨ kind = some .regular
  directory : r.type = .static → kind = some .directory →
    ((r.added resolve).slashedPrefix kind).length < TINY_PREFIX_MAX
  regular : r.type = .static → kind = some .regular →
    r.pathPrefix.getLast? = some SLASH → r.pathPrefix.length = 1

/-- A token that fits is copied whole. -/
theorem copyToken_of {cap : Nat} {src : List UInt8} (hne : src ≠ []) (hlt : src.length < cap) :
    copyToken cap src = some (src, src.length) := by
  have hpos := List.length_pos_iff.2 hne
  exact if_neg (by omega)

/-- A line that `Accepts` describes makes the route it describes. -/
theorem newRoute_added {r : RouteSpec} {kind : Option FileKind} (h : r.Accepts resolve kind)
    (lineno : Nat) :
    newRoute resolve r.type r.pathPrefix r.target lineno = .ok (r.added resolve) := by
  simp only [newRoute, r.prefix_ok, copyToken_of r.prefix_word.1 r.prefix_short,
    copyToken_of r.target_word.1 r.target_short]
  by_cases ht : r.type = .proxy
  · obtain ⟨⟨upstream, len⟩, hu⟩ := Option.isSome_iff_exists.1 (h.upstream ht)
    simp [ht, hu, added, address, TinyRoute.cleared]
  · simp [ht, added, address, TinyRoute.cleared, TinyRoute.zero]

/-- The new route's length field is the length of its prefix. -/
theorem added_parsed {r : RouteSpec} {kind : Option FileKind} (h : r.Accepts resolve kind) :
    Parsed (r.added resolve) := newRoute_parsed (newRoute_added h 0)

/-- The check of the target makes the loaded route. -/
theorem checkRoute_loaded {r : RouteSpec} {kind : Option FileKind} (h : r.Accepts resolve kind) :
    checkRoute kind (r.added resolve) = .ok (r.loaded resolve kind) := by
  have hp := added_parsed h
  have hslash := TinyRoute.endsSlash_iff hp.pos
  rw [hp.prefixBytes] at hslash
  have hkeep : (r.added resolve).slashedPrefix kind = (r.added resolve).pathPrefix →
      r.loaded resolve kind = r.added resolve := by
    intro he
    simp only [loaded, he]
    rfl
  by_cases ht : r.type = .static
  · have ht' : (r.added resolve).type = .static := ht
    rcases h.stat ht with rfl | rfl
    · by_cases hs : (r.added resolve).EndsSlash
      · have he : ensureDirSlash (r.added resolve) = some (r.added resolve) := by
          rw [ensureDirSlash_eq, if_pos hs]
        rw [hkeep (by simp [TinyRoute.slashedPrefix, hslash.1 hs])]
        simp [checkRoute, ht', he]
      · have hpre : (r.added resolve).slashedPrefix (some .directory)
            = (r.added resolve).pathPrefix ++ [SLASH] := by
          simp [TinyRoute.slashedPrefix, ht', mt hslash.2 hs]
        have hlt := h.directory ht rfl
        rw [hpre, List.length_append, ← hp.length, List.length_singleton] at hlt
        have he : ensureDirSlash (r.added resolve) = some (r.added resolve).slashed := by
          rw [ensureDirSlash_eq, if_neg hs, if_neg (by omega)]
        have hl : r.loaded resolve (some .directory) = (r.added resolve).slashed := by
          simp only [loaded, hpre, TinyRoute.slashed, hp.prefixBytes, List.length_append,
            List.length_singleton, hp.length]
        rw [hl]
        simp [checkRoute, ht', he]
    · rw [hkeep (by simp [TinyRoute.slashedPrefix])]
      have hno : ¬ (1 < (r.added resolve).prefixLen ∧
          (r.added resolve).prefixAt ((r.added resolve).prefixLen - 1) = SLASH) := by
        rintro ⟨h₁, h₂⟩
        have := h.regular ht rfl (hslash.1 h₂)
        rw [hp.length] at h₁
        exact absurd h₁ (by simp [added, this])
      simp only [checkRoute, if_neg (not_not.2 ht')]
      exact if_neg hno
  · have ht' : (r.added resolve).type ≠ .static := ht
    rw [hkeep (by simp [TinyRoute.slashedPrefix, ht'])]
    exact if_pos ht'

end RouteSpec

/-! ## Lines -/

/-- What the file may say on the way: one port, and routes that fit the table. -/
structure Writable (resolve : List UInt8 → List UInt8 → Option (List UInt8))
    (es : List Entry) : Prop where
  once : (es.filterMap Entry.digits?).length ≤ 1
  port : ∀ d ∈ es.filterMap Entry.digits?, 1 ≤ decimal d ∧ decimal d ≤ 65535
  room : (es.filterMap Entry.route?).length ≤ TINY_MAX_ROUTES
  accepts : ∀ r ∈ es.filterMap Entry.route?, ∃ kind, r.Accepts resolve kind

/-- The start of a writable file is writable. -/
theorem Writable.left {as bs : List Entry} (h : Writable resolve (as ++ bs)) :
    Writable resolve as := by
  obtain ⟨h₁, h₂, h₃, h₄⟩ := h
  simp only [List.filterMap_append, List.length_append, List.mem_append] at h₁ h₂ h₃ h₄
  exact ⟨by omega, fun d hd => h₂ d (.inl hd), by omega, fun r hr => h₄ r (.inl hr)⟩

/-- The locals of `tiny_site_load` after the entries `es`. -/
structure Progress (resolve : List UInt8 → List UInt8 → Option (List UInt8)) (l : Loading)
    (es : List Entry) : Prop where
  listed : l.site.listed = (es.filterMap Entry.route?).map (RouteSpec.added resolve)
  listen : l.sawListen = true ↔ es.filterMap Entry.digits? ≠ []
  port : ∀ d ∈ es.filterMap Entry.digits?, l.site.port = decimal d

/-- The port loop reads the decimal number of the digits. -/
theorem portLoop_digits {s : List UInt8} : ∀ {v : Nat}, s.all isDigit = true →
    1 ≤ decimalFrom v s → decimalFrom v s ≤ 65535 → portLoop s v = some (decimalFrom v s) := by
  induction s with
  | nil =>
      intro v _ hpos _
      have hv : v ≠ 0 := by
        rintro rfl
        simp [decimalFrom] at hpos
      simp [portLoop, hv, decimalFrom]
  | cons c s ih =>
      intro v hd hpos hle
      simp only [List.all_cons, Bool.and_eq_true] at hd
      have hstep : decimalFrom v (c :: s) = decimalFrom (v * 10 + (c.toNat - 0x30)) s := rfl
      rw [hstep] at hpos hle ⊢
      have hv := le_decimalFrom s (v * 10 + (c.toNat - 0x30))
      simp only [portLoop, hd.1, Bool.not_true, Bool.false_eq_true, if_false]
      rw [if_neg (by omega)]
      exact ih hd.2 hpos hle

/-- A port token in range is read as its number. -/
theorem parsePortToken_digits {d : List UInt8} (hne : d ≠ []) (hd : d.all isDigit = true)
    (h : 1 ≤ decimal d ∧ decimal d ≤ 65535) : parsePortToken d = some (decimal d) := by
  rw [parsePortToken, if_neg hne]
  exact portLoop_digits hd h.1 h.2

theorem keyword_ne_listen {t : RouteType} : keyword t ≠ cstr "listen" := by
  cases t <;> decide

/-- Each keyword names its type. -/
theorem routeType_keyword {t : RouteType} (h : t ≠ .none) :
    routeType (keyword t) = t ∧
      ¬ (keyword t ≠ cstr "static" ∧ keyword t ≠ cstr "proxy" ∧ keyword t ≠ cstr "app") := by
  cases t with
  | none => exact absurd rfl h
  | static => decide
  | proxy => decide
  | app => decide

/-- One line: the table has its entry besides. -/
theorem Progress.line {l : Loading} {es : List Entry} {e : Entry} {bytes : List UInt8}
    (h : Progress resolve l es) (hw : Writable resolve (es ++ [e]))
    (hwords : Words e.words (cstring bytes))
    (hfit : ¬ ((cstring bytes).length = LINE_SIZE - 1 ∧ (cstring bytes).getLast? ≠ some LF)) :
    ∃ l', loadLine resolve l bytes = .ok l' ∧ Progress resolve l' (es ++ [e]) := by
  obtain ⟨honce, hport, hroom, haccepts⟩ := hw
  simp only [loadLine, if_neg hfit]
  cases e with
  | blank =>
      obtain ⟨p, hp⟩ := hwords.none
      simp only [hp]
      exact ⟨_, rfl, by simpa [List.filterMap_cons] using h.listed, by simpa using h.listen, by simpa using h.port⟩
  | listen digits hne hd =>
      obtain ⟨p₁, hp₁, hw₁⟩ := hwords.next
      obtain ⟨p₂, hp₂, hw₂⟩ := hw₁.next
      obtain ⟨p₃, hp₃⟩ := hw₂.none
      have hdigits : es.filterMap Entry.digits? = [] := by
        simp only [List.filterMap_append, List.length_append, List.filterMap_cons,
          Entry.digits?_listen, List.length_cons] at honce
        exact List.length_eq_zero_iff.1 (by omega)
      have hsaw : l.sawListen = false := by
        have := h.listen
        rw [hdigits] at this
        simpa using this
      have hrange := hport digits (by simp)
      simp only [hp₁, if_true, listenLine, hp₂, hp₃, parsePortToken_digits hne hd hrange, hsaw]
      have hlisted : l.site.listed = ((es ++ [Entry.listen digits hne hd]).filterMap
          Entry.route?).map (RouteSpec.added resolve) := by
        simpa [List.filterMap_cons] using h.listed
      refine ⟨_, rfl, hlisted, ?_, ?_⟩
      · simp
      · simp [hdigits]
  | route r =>
      obtain ⟨p₁, hp₁, hw₁⟩ := hwords.next
      obtain ⟨p₂, hp₂, hw₂⟩ := hw₁.next
      obtain ⟨p₃, hp₃, hw₃⟩ := hw₂.next
      obtain ⟨p₄, hp₄⟩ := hw₃.none
      obtain ⟨htype, hkw⟩ := routeType_keyword r.typed
      obtain ⟨kind, hacc⟩ := haccepts r (by simp)
      have hlt : l.site.nroutes < TINY_MAX_ROUTES := by
        have hlen := congrArg List.length h.listed
        rw [TinySite.listed_length, List.length_map] at hlen
        simp at hroom
        omega
      have hadd : ∃ site, addRoute resolve l.site r.type r.pathPrefix r.target (l.lineno + 1)
          = .ok site := by
        simp only [addRoute, dif_neg (not_le.2 hlt), RouteSpec.newRoute_added hacc]
        exact ⟨_, rfl⟩
      obtain ⟨site, hsite⟩ := hadd
      obtain ⟨hport', q, hq, hlisted⟩ := addRoute_listed hsite
      obtain rfl : r.added resolve = q := by
        rw [RouteSpec.newRoute_added hacc] at hq
        cases hq
        rfl
      simp only [hp₁, if_neg keyword_ne_listen, if_neg hkw, routeLine, hp₂, hp₃, hp₄, htype, hsite]
      refine ⟨_, rfl, ?_, ?_, ?_⟩
      · simp [hlisted, h.listed]
      · simpa using h.listen
      · simpa [hport'] using h.port

/-! ## Files -/

/-- The C string of a line is no longer than the line. -/
theorem cstring_le (a : List UInt8) : (cstring a).length ≤ a.length :=
  (List.takeWhile_prefix _).length_le

/-- A line that `fgets` has read whole is not too long. -/
theorem line_fits {t : List UInt8} (eol : List UInt8) (h : eol = [] ∨ eol = [LF]) (hlen : t.length < LINE_SIZE - 1) :
    ¬ ((cstring (t ++ eol)).length = LINE_SIZE - 1 ∧
      (cstring (t ++ eol)).getLast? ≠ some LF) := by
  rintro ⟨hfull, hlast⟩
  have hle := cstring_le (t ++ eol)
  rcases h with rfl | rfl
  · rw [List.append_nil] at hle hfull
    omega
  · -- then the whole line is the C string, and its last byte is the line feed
    have heq : cstring (t ++ [LF]) = t ++ [LF] :=
      (List.takeWhile_prefix _).eq_of_length (by
        have : (cstring (t ++ [LF])).length ≤ t.length + 1 := by simpa using hle
        have h₂ : (t ++ [LF]).length = t.length + 1 := by simp
        have h₃ : (cstring (t ++ [LF])).length = LINE_SIZE - 1 := hfull
        simp only [cstring] at this h₃
        omega)
    rw [heq] at hlast
    simp at hlast

/-- The entries of a file in order. -/
def entriesOf (lines : List Line) (last : Option Line) : List Entry :=
  (lines ++ last.toList).map Line.entry

/-- The loop over a file. -/
theorem loadLoop_lines {lines : List Line} {last : Option Line}
    (hshort : ∀ l ∈ lines ++ last.toList, l.text.length < LINE_SIZE - 1) :
    ∀ {n : Nat} {l : Loading} {es : List Entry}, Progress resolve l es →
      Writable resolve (es ++ entriesOf lines last) → (fileText lines last).length ≤ n →
      ∃ l', loadLoop resolve n (fileText lines last) l = .ok l' ∧
        Progress resolve l' (es ++ entriesOf lines last) := by
  induction lines with
  | nil =>
      intro n l es hp hw hn
      cases last with
      | none => exact ⟨l, by cases n <;> simp [loadLoop, fileText], by simpa [entriesOf] using hp⟩
      | some line =>
          have hlen := hshort line (by simp)
          have htext : fileText [] (some line) = line.text := by simp [fileText]
          rw [htext] at hn ⊢
          by_cases hnil : line.text = []
          · -- a last line without a byte is no line
            have hblank : line.entry = .blank := by
              have := line.entry_of_nil hnil
              cases he : line.entry with
              | blank => rfl
              | listen => simp [he, Entry.words] at this
              | route => simp [he, Entry.words] at this
            refine ⟨l, by cases n <;> simp [loadLoop, hnil], ?_⟩
            obtain ⟨h₁, h₂, h₃⟩ := hp
            exact ⟨by simpa [entriesOf, hblank, List.filterMap_cons] using h₁,
              by simpa [entriesOf, hblank] using h₂, by simpa [entriesOf, hblank] using h₃⟩
          · have hpos := List.length_pos_iff.2 hnil
            obtain ⟨m, rfl⟩ : ∃ m, n = m + 1 := ⟨n - 1, by omega⟩
            have hwords := line.words [] (.inl rfl)
            have hfit := line_fits [] (.inl rfl) hlen
            rw [List.append_nil] at hwords hfit
            obtain ⟨l', hl', hp'⟩ := hp.line (by simpa [entriesOf] using hw) hwords hfit
            refine ⟨l', ?_, by simpa [entriesOf] using hp'⟩
            simp only [loadLoop, if_neg hnil, fgets_last line.lf_not_mem hlen, hl']
            cases m <;> simp [loadLoop]
  | cons line lines ih =>
      intro n l es hp hw hn
      have hlen := hshort line (by simp)
      have htext : fileText (line :: lines) last = line.text ++ LF :: fileText lines last := by
        simp [fileText]
      have hentries : es ++ entriesOf (line :: lines) last
          = es ++ [line.entry] ++ entriesOf lines last := by simp [entriesOf]
      rw [hentries] at hw ⊢
      rw [htext] at hn ⊢
      rw [List.length_append, List.length_cons] at hn
      obtain ⟨m, rfl⟩ : ∃ m, n = m + 1 := ⟨n - 1, by omega⟩
      obtain ⟨l', hl', hp'⟩ := hp.line hw.left (line.words [LF] (.inr rfl))
        (line_fits [LF] (.inr rfl) hlen)
      obtain ⟨l'', hl'', hp''⟩ := ih (fun q hq => hshort q (by simp_all)) hp' hw (n := m) (by omega)
      refine ⟨l'', ?_, hp''⟩
      have hne : line.text ++ LF :: fileText lines last ≠ [] := by simp
      simp only [loadLoop, if_neg hne, fgets_line line.lf_not_mem hlen, hl', hl'']

/-! ## Sites -/

/-- The checks go over the routes in order. -/
theorem checkRoutes_of {rs rs' : List TinyRoute} :
    ∀ {i : Nat}, rs.length = rs'.length →
      (∀ k r r', rs[k]? = some r → rs'[k]? = some r' → checkRoute (kinds (i + k)) r = .ok r') →
      checkRoutes kinds i rs = .ok rs' := by
  induction rs generalizing rs' with
  | nil =>
      intro i hlen _
      rw [List.length_eq_zero_iff.1 hlen.symm]
      rfl
  | cons r rs ih =>
      intro i hlen hall
      cases rs' with
      | nil => cases hlen
      | cons r' rs' =>
          have hr := hall 0 r r' rfl rfl
          have hrs : checkRoutes kinds (i + 1) rs = .ok rs' := by
            apply ih (by simpa using hlen)
            intro k q q' hq hq'
            have := hall (k + 1) q q' (by simpa using hq) (by simpa using hq')
            rwa [show i + 1 + k = i + (k + 1) by omega]
          rw [Nat.add_zero] at hr
          simp only [checkRoutes, hr, hrs]

/-- What `site_check` accepts, in terms of the checked routes. -/
theorem siteCheck_of {site : TinySite} {rs : List TinyRoute} (hn : site.nroutes ≠ 0)
    (hrs : checkRoutes kinds 0 site.listed = .ok rs) (hservice : rs.any isService = true)
    (hd : (rs.map TinyRoute.prefixBytes).Nodup) :
    ∃ site', siteCheck kinds site = .ok site' ∧ site'.port = site.port ∧ site'.listed = rs := by
  have hdup : firstDuplicate [] rs = none := firstDuplicate_eq_none.2 ⟨hd, by simp⟩
  have hlen : rs.length = site.nroutes := by rw [checkRoutes_length hrs, TinySite.listed_length]
  refine ⟨site.withListed rs hlen, ?_, rfl, ?_⟩
  · simp only [siteCheck, if_neg hn]
    split
    · rename_i he
      rw [hrs] at he
      cases he
    · rename_i hok
      rw [hrs] at hok
      cases hok
      simp only [hservice, hdup]
      rfl
  · simp [TinySite.withListed, TinySite.listed, ← hlen]

/-- A site as it can be written: the port and the routes. -/
structure SiteSpec where
  port : Nat
  routes : List RouteSpec
  port_pos : 1 ≤ port
  port_le : port ≤ 65535
  routes_ne : routes ≠ []
  routes_le : routes.length ≤ TINY_MAX_ROUTES
  service : ∃ r ∈ routes, r.type = .static ∨ r.type = .proxy

/-- The routes that are loaded, in order. -/
def SiteSpec.loaded (s : SiteSpec) (resolve : List UInt8 → List UInt8 → Option (List UInt8))
    (kinds : Nat → Option FileKind) : List TinyRoute :=
  s.routes.mapIdx fun i r => r.loaded resolve (kinds i)

/-- The file is the site, in some layout: the entries are one `listen` with the port and
the routes in order, anywhere among blank lines. -/
structure Writes (s : SiteSpec) (lines : List Line) (last : Option Line) : Prop where
  listen : ∃ digits, (entriesOf lines last).filterMap Entry.digits? = [digits] ∧
    decimal digits = s.port
  routes : (entriesOf lines last).filterMap Entry.route? = s.routes
  short : ∀ l ∈ lines ++ last.toList, l.text.length < LINE_SIZE - 1

/-- Loading is a left inverse of writing, for every layout. -/
theorem tinySiteLoad_fileText {s : SiteSpec}
    (haccepts : ∀ (i : Nat) (r : RouteSpec), s.routes[i]? = some r → r.Accepts resolve (kinds i))
    (hdistinct : ((s.loaded resolve kinds).map TinyRoute.pathPrefix).Nodup)
    {lines : List Line} {last : Option Line} (hw : Writes s lines last) :
    ∃ site, tinySiteLoad resolve kinds (some (fileText lines last)) = .ok site ∧
      site.port = s.port ∧ site.listed = s.loaded resolve kinds := by
  obtain ⟨digits, hdigits, hport⟩ := hw.listen
  have hall : ∀ r ∈ s.routes, ∃ kind, r.Accepts resolve kind := fun r hr => by
    obtain ⟨i, hi⟩ := List.getElem?_of_mem hr
    exact ⟨_, haccepts i r hi⟩
  have hwritable : Writable resolve ([] ++ entriesOf lines last) := by
    rw [List.nil_append]
    refine ⟨by simp [hdigits], fun d hd => ?_, hw.routes ▸ s.routes_le, hw.routes ▸ hall⟩
    obtain rfl : d = digits := by simpa [hdigits] using hd
    rw [hport]
    exact ⟨s.port_pos, s.port_le⟩
  have hstart : Progress resolve ⟨siteClear, 0, false⟩ [] :=
    ⟨by simp [TinySite.listed, siteClear], by simp, by simp⟩
  obtain ⟨l, hl, hp⟩ := loadLoop_lines hw.short hstart hwritable le_rfl
  rw [List.nil_append] at hp
  obtain ⟨hlisted, hlisten, hports⟩ := hp
  rw [hdigits] at hlisten hports
  rw [hw.routes] at hlisted
  have hsaw : l.sawListen = true := hlisten.2 (by simp)
  have hn : l.site.nroutes ≠ 0 := by
    rw [← TinySite.listed_length, hlisted, List.length_map]
    exact fun h => s.routes_ne (List.length_eq_zero_iff.1 h)
  have hchecks : checkRoutes kinds 0 l.site.listed = .ok (s.loaded resolve kinds) := by
    refine checkRoutes_of (by simp [hlisted, SiteSpec.loaded]) fun k r r' hr hr' => ?_
    simp only [hlisted, List.getElem?_map, Option.map_eq_some_iff] at hr
    obtain ⟨q, hq, rfl⟩ := hr
    obtain rfl : q.loaded resolve (kinds k) = r' := by simpa [SiteSpec.loaded, hq] using hr'
    rw [Nat.zero_add]
    exact RouteSpec.checkRoute_loaded (haccepts k q hq)
  have hservice : (s.loaded resolve kinds).any isService = true := by
    obtain ⟨r, hr, ht⟩ := s.service
    obtain ⟨i, hi⟩ := List.getElem?_of_mem hr
    refine List.any_eq_true.2 ⟨r.loaded resolve (kinds i), ?_, ?_⟩
    · exact List.mem_of_getElem? (i := i) (by simp [SiteSpec.loaded, hi])
    · rcases ht with ht | ht <;> simp [isService, RouteSpec.loaded, RouteSpec.added, ht]
  have hbytes : ∀ r ∈ s.loaded resolve kinds, r.prefixBytes = r.pathPrefix := by
    intro r hr
    obtain ⟨i, hi⟩ := List.getElem?_of_mem hr
    simp only [SiteSpec.loaded, List.getElem?_mapIdx, Option.map_eq_some_iff] at hi
    obtain ⟨q, hq, rfl⟩ := hi
    rw [TinyRoute.prefixBytes]
    simp [RouteSpec.loaded, List.takeD_eq_take]
  obtain ⟨site, hsite, hsport, hslisted⟩ := siteCheck_of hn hchecks hservice
    (by rwa [List.map_congr_left hbytes])
  refine ⟨site, ?_, ?_, hslisted⟩
  · simp only [tinySiteLoad, hl, hsaw]
    exact hsite
  · rw [hsport, hports digits (by simp), hport]

/-- Token characters other than NUL make a word. -/
theorem isWord_of {w : List UInt8} (hne : w ≠ [])
    (h : (w.all fun c => isTokenChar c && c != 0) = true) : IsWord w :=
  ⟨hne, fun c hc => by simpa using List.all_eq_true.1 h c hc⟩

/-- `static /img ./images`. -/
def imagesSpec : RouteSpec where
  type := .static
  pathPrefix := cstr "/img"
  target := cstr "./images"
  typed := by decide
  prefix_ok := by decide
  prefix_word := isWord_of (by decide) (by decide)
  prefix_short := by decide
  target_word := isWord_of (by decide) (by decide)
  target_short := by decide

/-- A site with one directory. -/
def imagesSite : SiteSpec where
  port := 80
  routes := [imagesSpec]
  port_pos := by decide
  port_le := by decide
  routes_ne := by decide
  routes_le := by decide
  service := ⟨imagesSpec, List.mem_singleton_self _, .inl rfl⟩

/-- The route first, with a comment behind it. -/
def imagesLine : Line where
  entry := .route imagesSpec
  gaps := [[], [SP, HTAB], [SP]]
  trail := []
  comment := some (cstr " pictures")
  carriage := true
  gaps_length := rfl
  gaps_ows := List.all_eq_true.1 (by decide : ([[], [SP, HTAB], [SP]] : List (List UInt8)).all
    (fun gap => gap.all isOws) = true)
  gaps_ne := by simp
  trail_ows := rfl
  comment_lf := by decide

/-- The port last, on a line without a line feed. -/
def portLine : Line where
  entry := .listen (cstr "0080") (by decide) (by decide)
  gaps := [[SP], [SP]]
  trail := [HTAB]
  comment := none
  carriage := false
  gaps_length := rfl
  gaps_ows := List.all_eq_true.1 (by decide : ([[SP], [SP]] : List (List UInt8)).all
    (fun gap => gap.all isOws) = true)
  gaps_ne := by simp
  trail_ows := by decide
  comment_lf := by decide

theorem tinySiteLoad_fileText_images :
    fileText [imagesLine] (some portLine)
        = cstr "static \t/img ./images# pictures\r\n listen 0080\t" ∧
      ∃ site, tinySiteLoad (fun _ _ => none) (fun _ => some .directory)
          (some (fileText [imagesLine] (some portLine))) = .ok site ∧
        site.port = imagesSite.port ∧
        site.listed = imagesSite.loaded (fun _ _ => none) fun _ => some .directory := by
  refine ⟨by decide, tinySiteLoad_fileText (fun i r hr => ?_) (by decide) ⟨?_, rfl, ?_⟩⟩
  · obtain rfl : r = imagesSpec := by
      have := List.mem_of_getElem? hr
      simpa [imagesSite] using this
    exact ⟨nofun, fun _ => .inl rfl, fun _ _ => by decide, nofun⟩
  · exact ⟨cstr "0080", rfl, by decide⟩
  · simp only [Option.toList_some, List.cons_append, List.nil_append, List.mem_cons,
      List.not_mem_nil, or_false]
    rintro l (rfl | rfl) <;> decide

end TinyServer.Routing
