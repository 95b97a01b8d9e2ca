import TinyServer.Routing.Installed

/-!
# Loaded sites are installed (`tiny_site_load`, `routes_init`)

`tiny_site_load` and `routes_init` check and edit the prefixes of the routes twice. The
checks of the second pass are among those of the first (`Checked`), and a prefix that the
first pass has edited is one that the second leaves alone. So what was loaded is installed
as it is, but for the marks of `routes_init`.
-/

set_option autoImplicit false

namespace TinyServer.Routing

open TinyServer.Http TinyServer.Static

/-! ## Routes as they are added -/

/-- A route as `add_route` writes it. -/
structure Parsed (r : TinyRoute) : Prop where
  length : r.prefixLen = r.pathPrefix.length
  pos : 0 < r.prefixLen
  lt : r.prefixLen < TINY_PREFIX_MAX
  head : r.pathPrefix.head? = some SLASH
  target : r.target ≠ []
  unmarked : r.unmarked = r

/-- The bytes of a parsed route's prefix are the token of the line. -/
theorem Parsed.prefixBytes {r : TinyRoute} (h : Parsed r) : r.prefixBytes = r.pathPrefix := by
  rw [TinyRoute.prefixBytes, h.length, List.takeD_eq_take _ le_rfl, List.take_length]

/-- A copied token is the whole token, within the buffer. -/
theorem copyToken_some {cap : Nat} {src : List UInt8} {p : List UInt8 × Nat}
    (h : copyToken cap src = some p) : p = (src, src.length) ∧ src ≠ [] ∧ src.length < cap := by
  by_cases hbad : src.length = 0 ∨ cap ≤ src.length
  · rw [copyToken, if_pos hbad] at h
    cases h
  · rw [copyToken, if_neg hbad] at h
    cases h
    refine ⟨rfl, fun h => hbad (.inl (by simp [h])), by omega⟩

section Load

variable {resolve : List UInt8 → List UInt8 → Option (List UInt8)}

/-- A route made from a line has its length field right. -/
theorem newRoute_parsed {type : RouteType} {pathPrefix target : List UInt8} {lineno : Nat}
    {r : TinyRoute} (h : newRoute resolve type pathPrefix target lineno = .ok r) : Parsed r := by
  simp only [newRoute] at h
  split at h
  · cases h
  rename_i hok
  have hhead : pathPrefix.head? = some SLASH := by
    by_contra hne
    exact hok (by simp [prefixOk, hne])
  split at h
  · cases h
  rename_i hp
  obtain ⟨hp, hne, hlt⟩ := copyToken_some hp
  cases hp
  split at h
  · cases h
  rename_i ht
  obtain ⟨ht, htarget, -⟩ := copyToken_some ht
  cases ht
  have hpos : 0 < pathPrefix.length := List.length_pos_iff.2 hne
  split at h
  · -- a proxy route has its address besides
    split at h
    · cases h
    cases h
    exact ⟨rfl, hpos, hlt, hhead, htarget, rfl⟩
  · cases h
    exact ⟨rfl, hpos, hlt, hhead, htarget, rfl⟩

/-- A route that is added stands last in the list. -/
theorem addRoute_listed {site site' : TinySite} {type : RouteType}
    {pathPrefix target : List UInt8} {lineno : Nat}
    (h : addRoute resolve site type pathPrefix target lineno = .ok site') :
    site'.port = site.port ∧ ∃ r, newRoute resolve type pathPrefix target lineno = .ok r ∧
      site'.listed = site.listed ++ [r] := by
  simp only [addRoute] at h
  split at h
  · cases h
  rename_i hn
  split at h
  · cases h
  rename_i r hr
  cases h
  refine ⟨rfl, r, hr, ?_⟩
  have hlt : site.nroutes < site.routes.length := by rw [site.routes_length]; omega
  simp [TinySite.listed, List.take_add_one, List.getElem?_set_self hlt,
    List.take_set_of_le le_rfl]

/-- What holds between two lines. -/
structure LoadInv (l : Loading) : Prop where
  port : l.sawListen = true → l.site.port ≠ 0 ∧ l.site.port ≤ 65535
  parsed : ∀ r ∈ l.site.listed, Parsed r

/-- A port that is read lies between 1 and 65535. -/
theorem portLoop_range {s : List UInt8} :
    ∀ {v p : Nat}, v ≤ 65535 → portLoop s v = some p → p ≠ 0 ∧ p ≤ 65535 := by
  induction s with
  | nil =>
      intro v p hv h
      by_cases h₀ : v = 0
      · simp [portLoop, h₀] at h
      · simp only [portLoop, h₀, if_false, Option.some.injEq] at h
        omega
  | cons c s ih =>
      intro v p hv h
      simp only [portLoop] at h
      split at h
      · cases h
      split at h
      · cases h
      rename_i hle
      exact ih (by omega) h

theorem parsePortToken_range {s : List UInt8} {p : Nat} (h : parsePortToken s = some p) :
    p ≠ 0 ∧ p ≤ 65535 := by
  simp only [parsePortToken] at h
  split at h
  · cases h
  · exact portLoop_range (Nat.zero_le _) h

/-- One line keeps what the loader knows of its routes. -/
theorem loadLine_inv {l l' : Loading} {line : List UInt8} (hl : LoadInv l)
    (h : loadLine resolve l line = .ok l') : LoadInv l' := by
  simp only [loadLine] at h
  split at h
  · cases h
  split at h
  · cases h
    exact ⟨hl.port, hl.parsed⟩
  split at h
  · -- `listen`
    simp only [listenLine] at h
    split at h
    · cases h
    split at h
    · cases h
    split at h
    · cases h
    rename_i port hport
    split at h
    · cases h
    cases h
    exact ⟨fun _ => parsePortToken_range hport, hl.parsed⟩
  split at h
  · cases h
  · -- a route
    simp only [routeLine] at h
    split at h
    · cases h
    split at h
    · cases h
    split at h
    · cases h
    split at h
    · cases h
    rename_i site hadd
    cases h
    obtain ⟨hport, r, hr, hlisted⟩ := addRoute_listed hadd
    refine ⟨fun hs => ?_, fun q hq => ?_⟩
    · rw [hport]
      exact hl.port hs
    · rw [hlisted, List.mem_append, List.mem_singleton] at hq
      rcases hq with hq | rfl
      · exact hl.parsed q hq
      · exact newRoute_parsed hr

theorem loadLoop_inv {n : Nat} :
    ∀ {text : List UInt8} {l l' : Loading}, LoadInv l → loadLoop resolve n text l = .ok l' →
      LoadInv l' := by
  induction n with
  | zero =>
      intro text l l' hl h
      cases h
      exact hl
  | succ n ih =>
      intro text l l' hl h
      simp only [loadLoop] at h
      split at h
      · cases h
        exact hl
      split at h
      · cases h
      rename_i hline
      exact ih (loadLine_inv hl hline) h

end Load

/-! ## Routes as they are checked -/

/-- A route that `site_check` has gone over, where `stat` says `kind` of its target. -/
structure Checked (kind : Option FileKind) (r : TinyRoute) : Prop where
  parsed : Parsed r
  stat : r.type = .static → kind = some .directory ∨ kind = some .regular
  directory : r.type = .static → kind = some .directory → r.EndsSlash
  regular : r.type = .static → kind = some .regular → ¬ (r.EndsSlash ∧ 1 < r.prefixLen)

theorem Parsed.slashed {r : TinyRoute} (h : Parsed r) (hlt : r.prefixLen + 1 < TINY_PREFIX_MAX) :
    Parsed r.slashed where
  length := by simp [TinyRoute.slashed]
  pos := Nat.succ_pos _
  lt := hlt
  head := by
    have := h.head
    simp [TinyRoute.slashed, h.prefixBytes, this]
  target := h.target
  unmarked := by
    have := h.unmarked
    simp only [TinyRoute.unmarked, TinyRoute.slashed] at this ⊢
    rw [← this]

/-- What the check of one route establishes. -/
theorem checkRoute_checked {kind : Option FileKind} {r r' : TinyRoute} (hr : Parsed r)
    (h : checkRoute kind r = .ok r') : Checked kind r' := by
  simp only [checkRoute] at h
  split at h
  · rename_i ht
    cases h
    exact ⟨hr, fun h => absurd h ht, fun h => absurd h ht, fun h => absurd h ht⟩
  split at h
  · cases h
  · split at h
    · cases h
    rename_i r₁ hs
    cases h
    obtain ⟨hslash, h⟩ := ensureDirSlash_some hs
    have hp : Parsed r' := by
      rcases h with rfl | ⟨-, hlt, rfl⟩
      · exact hr
      · exact hr.slashed hlt
    exact ⟨hp, fun _ => .inl rfl, fun _ _ => hslash, fun _ h => (by cases h)⟩
  · split at h
    · cases h
    rename_i hs
    cases h
    exact ⟨hr, fun _ => .inr rfl, fun _ h => (by cases h), fun _ _ ⟨h₁, h₂⟩ => hs ⟨h₂, h₁⟩⟩
  · cases h

/-- Each checked route comes from the one at its place. -/
theorem checkRoutes_get {kinds : Nat → Option FileKind} {rs : List TinyRoute} :
    ∀ {i : Nat} {rs' : List TinyRoute}, checkRoutes kinds i rs = .ok rs' →
      ∀ k r', rs'[k]? = some r' → ∃ r, rs[k]? = some r ∧ checkRoute (kinds (i + k)) r = .ok r' := by
  induction rs with
  | nil =>
      intro i rs' h k r' hk
      cases h
      simp at hk
  | cons r rs ih =>
      intro i rs' h k r' hk
      simp only [checkRoutes] at h
      split at h
      · cases h
      rename_i hr
      split at h
      · cases h
      rename_i hrs
      cases h
      cases k with
      | zero =>
          obtain rfl : _ = r' := by simpa using hk
          exact ⟨r, rfl, hr⟩
      | succ k =>
          obtain ⟨q, hq, hc⟩ := ih hrs k r' (by simpa using hk)
          exact ⟨q, by simpa using hq, by rwa [show i + (k + 1) = i + 1 + k by omega]⟩

/-- A site that `tiny_site_load` returns. -/
structure Loaded (kinds : Nat → Option FileKind) (site : TinySite) : Prop where
  port : site.port ≠ 0 ∧ site.port ≤ 65535
  nroutes : site.nroutes ≠ 0
  checked : ∀ i r, site.listed[i]? = some r → Checked (kinds i) r
  distinct : (site.listed.map TinyRoute.prefixBytes).Nodup

/-- What `site_check` establishes of the whole site. -/
theorem siteCheck_ok {kinds : Nat → Option FileKind} {site site' : TinySite}
    (h : siteCheck kinds site = .ok site') :
    site'.port = site.port ∧ site.nroutes ≠ 0 ∧ site'.nroutes = site.nroutes ∧
      checkRoutes kinds 0 site.listed = .ok site'.listed ∧ site'.listed.any isService = true ∧
      (site'.listed.map TinyRoute.prefixBytes).Nodup := by
  simp only [siteCheck] at h
  split at h
  · cases h
  rename_i hn
  split at h
  · cases h
  rename_i rs hrs
  split at h
  · cases h
  rename_i hany
  split at h
  · cases h
  rename_i hdup
  cases h
  have hlen : rs.length = site.nroutes := by rw [checkRoutes_length hrs, TinySite.listed_length]
  have hlisted : ∀ hw, (site.withListed rs hw).listed = rs := by
    intro hw
    simp [TinySite.withListed, TinySite.listed, ← hlen]
  refine ⟨rfl, hn, rfl, ?_⟩
  rw [hlisted]
  exact ⟨hrs, by simpa using hany, (firstDuplicate_eq_none.1 hdup).1⟩

/-- A file that loads makes a loaded site. -/
theorem tinySiteLoad_loaded {resolve : List UInt8 → List UInt8 → Option (List UInt8)}
    {kinds : Nat → Option FileKind} {file : Option (List UInt8)} {site : TinySite}
    (h : tinySiteLoad resolve kinds file = .ok site) : Loaded kinds site := by
  simp only [tinySiteLoad] at h
  split at h
  · cases h
  split at h
  · cases h
  rename_i l hloop
  split at h
  · cases h
  rename_i hlisten
  have hl : LoadInv l :=
    loadLoop_inv ⟨fun h => (by cases h), by simp [TinySite.listed, siteClear]⟩ hloop
  obtain ⟨hport, hn, hn', hrs, -, hd⟩ := siteCheck_ok h
  refine ⟨?_, hn' ▸ hn, fun i r hr => ?_, hd⟩
  · rw [hport]
    exact hl.port (by simpa using hlisten)
  · obtain ⟨q, hq, hc⟩ := checkRoutes_get hrs i r hr
    rw [Nat.zero_add] at hc
    exact checkRoute_checked (hl.parsed q (List.mem_of_getElem? hq)) hc

/-! ## The second pass -/

/-- The marks of `routes_init` on a loaded route. -/
def marked (kind : Option FileKind) (fd : Option Nat) (r : TinyRoute) : TinyRoute :=
  if r.type ≠ .static then r
  else if kind = some .directory then
    if r.IsRoot then { r with primary := true } else { r with dirFd := fd }
  else { r with exact := true }

theorem marked_prefixBytes (kind : Option FileKind) (fd : Option Nat) (r : TinyRoute) :
    (marked kind fd r).prefixBytes = r.prefixBytes := by
  unfold marked
  split
  · rfl
  · split
    · split <;> rfl
    · rfl

/-- A loaded route is installed with its marks and no other change. -/
theorem Checked.installs {kind : Option FileKind} {fd : Option Nat} {r : TinyRoute}
    (h : Checked kind r) (hfd : kind = some .directory → fd.isSome) :
    Installs kind fd r (marked kind fd r) := by
  have hr := h.parsed.unmarked
  by_cases ht : r.type = .static
  · rcases h.stat ht with rfl | rfl
    · have hs : ensureDirSlash r.unmarked = some r := by
        rw [hr, ensureDirSlash_eq, if_pos (h.directory ht rfl)]
      obtain ⟨d, rfl⟩ := Option.isSome_iff_exists.1 (hfd rfl)
      by_cases hroot : r.IsRoot
      · have hinst : Installs (some .directory) (some d) r { r with primary := true } :=
          .root ht rfl hs hroot h.parsed.target rfl
        simpa [marked, ht, hroot] using hinst
      · have hinst : Installs (some .directory) (some d) r { r with dirFd := some d } :=
          .mount ht rfl hs hroot rfl
        simpa [marked, ht, hroot] using hinst
    · have hfile : Installs (some .regular) fd r { r.unmarked with exact := true } :=
        .file ht rfl (h.regular ht rfl)
      rw [hr] at hfile
      simpa [marked, ht] using hfile
  · have hother : Installs kind fd r r.unmarked := .other ht
    rw [hr] at hother
    simpa [marked, ht] using hother

/-- A property that forces one value is counted no more often than the value. -/
theorem count_le_of_imp {α β : Type} [BEq β] [LawfulBEq β] {rs : List α} {f : α → β} {p : α → Bool}
    {c : β} (h : ∀ r ∈ rs, p r = true → f r = c) : (rs.map p).count true ≤ (rs.map f).count c := by
  rw [List.count, List.countP_map, List.count, List.countP_map]
  refine List.countP_mono_left fun r hr hp => ?_
  simpa using h r hr (by simpa using hp)

variable {kinds : Nat → Option FileKind} {fds : Nat → Option Nat} {site : TinySite}

/-- The table of a loaded site. -/
def TinySite.marked (kinds : Nat → Option FileKind) (fds : Nat → Option Nat) (site : TinySite) :
    List TinyRoute :=
  site.listed.mapIdx fun i r => Routing.marked (kinds i) (fds i) r

/-- Each marked route comes from a checked one. -/
theorem Loaded.mem_marked (h : Loaded kinds site) {i : Nat} {r : TinyRoute}
    (hr : (site.marked kinds fds)[i]? = some r) :
    ∃ src, site.listed[i]? = some src ∧ Checked (kinds i) src ∧
      r = Routing.marked (kinds i) (fds i) src := by
  simp only [TinySite.marked, List.getElem?_mapIdx, Option.map_eq_some_iff] at hr
  obtain ⟨src, hsrc, rfl⟩ := hr
  exact ⟨src, hsrc, h.checked i src hsrc, rfl⟩

/-- Marking keeps the prefixes. -/
theorem Loaded.marked_prefixes (fds : Nat → Option Nat) (site : TinySite) :
    (site.marked kinds fds).map TinyRoute.prefixBytes
      = site.listed.map TinyRoute.prefixBytes := by
  apply List.ext_getElem?
  intro i
  simp [TinySite.marked, Function.comp_def, marked_prefixBytes]

/-- At most one route is the primary one. -/
theorem Loaded.one_primary (h : Loaded kinds site) :
    ((site.marked kinds fds).map TinyRoute.primary).count true ≤ 1 := by
  have hroot : ∀ r ∈ site.marked kinds fds, r.primary = true → r.prefixBytes = [SLASH] := by
    intro r hr hp
    obtain ⟨i, hi⟩ := List.getElem?_of_mem hr
    obtain ⟨src, -, hc, rfl⟩ := h.mem_marked hi
    have hsrc : src.primary = false := by rw [← hc.parsed.unmarked]; rfl
    rw [marked_prefixBytes]
    unfold Routing.marked at hp
    split at hp
    · simp [hsrc] at hp
    · split at hp
      · split at hp
        · rename_i hroot
          exact TinyRoute.isRoot_iff.1 hroot
        · simp [hsrc] at hp
      · simp [hsrc] at hp
  refine (count_le_of_imp hroot).trans (List.nodup_iff_count_le_one.1 ?_ _)
  rw [Loaded.marked_prefixes]
  exact h.distinct

/-- A loaded site is accepted, and its table is the loaded one with the marks. -/
theorem Loaded.routesInit (h : Loaded kinds site)
    (hopen : ∀ i, kinds i = some .directory → (fds i).isSome) (g : Router) :
    ∃ g', Router.routesInit kinds fds (some site) g = (.ok (), g') ∧
      g'.site.listed = site.marked kinds fds := by
  have hall : ∀ i src, site.listed[i]? = some src →
      ∃ r, (site.marked kinds fds)[i]? = some r ∧ Installs (kinds i) (fds i) src r := by
    intro i src hi
    refine ⟨Routing.marked (kinds i) (fds i) src, ?_, (h.checked i src hi).installs (hopen i)⟩
    simp [TinySite.marked, hi]
  have hlen : (site.marked kinds fds).length = site.nroutes := by simp [TinySite.marked]
  obtain ⟨g', hg'⟩ := routesInit_of_installs h.port.1 hlen hall h.one_primary
    (by rw [Loaded.marked_prefixes]; exact h.distinct) g
  refine ⟨g', hg', ?_⟩
  obtain ⟨-, hn, hinst, -⟩ := routesInit_ok hg'
  apply List.ext_getElem?
  intro i
  by_cases hi : i < site.nroutes
  · obtain ⟨src, hsrc⟩ : ∃ src, site.listed[i]? = some src :=
      ⟨_, List.getElem?_eq_getElem (by simpa using hi)⟩
    obtain ⟨r, hr, hr'⟩ := hinst i src hsrc
    obtain ⟨q, hq, hq'⟩ := hall i src hsrc
    rw [hr, hq, hr'.unique hq']
  · rw [List.getElem?_eq_none (by simp; omega), List.getElem?_eq_none (by omega)]

/-- What the installed table `t` is for the loaded site `s`. -/
structure TableOf (kinds : Nat → Option FileKind) (s t : TinySite) : Prop where
  routes : t.listed.map TinyRoute.unmarked = s.listed
  distinct : (t.listed.map TinyRoute.pathPrefix).Nodup
  length : ∀ r ∈ t.listed, r.prefixLen = r.pathPrefix.length ∧ r.prefixLen < TINY_PREFIX_MAX
  slash : ∀ i r, t.listed[i]? = some r → r.type = .static → kinds i = some .directory →
    r.pathPrefix.getLast? = some SLASH
  exact : ∀ i r, t.listed[i]? = some r →
    (r.exact = true ↔ r.type = .static ∧ kinds i = some .regular)
  onePrimary : (t.listed.map TinyRoute.primary).count true ≤ 1
  primary : ∀ i r, t.listed[i]? = some r →
    (r.primary = true ↔ r.type = .static ∧ kinds i = some .directory ∧ r.pathPrefix = [SLASH])
  dirFd : ∀ i r, t.listed[i]? = some r →
    (r.dirFd.isSome = true ↔
      r.type = .static ∧ kinds i = some .directory ∧ r.pathPrefix ≠ [SLASH])

/-- What marking makes of a checked route, field by field. -/
theorem Checked.marked_eq {kind : Option FileKind} {fd : Option Nat} {src : TinyRoute}
    (h : Checked kind src) (hfd : kind = some .directory → fd.isSome) :
    let r := Routing.marked kind fd src
    r.unmarked = src ∧
      (r.exact = true ↔ r.type = .static ∧ kind = some .regular) ∧
      (r.primary = true ↔ r.type = .static ∧ kind = some .directory ∧ r.pathPrefix = [SLASH]) ∧
      (r.dirFd.isSome = true ↔
        r.type = .static ∧ kind = some .directory ∧ r.pathPrefix ≠ [SLASH]) := by
  have hun : { src with dirFd := none, exact := false, primary := false } = src :=
    h.parsed.unmarked
  have hx : src.exact = false := by rw [← h.parsed.unmarked]; rfl
  have hp : src.primary = false := by rw [← h.parsed.unmarked]; rfl
  have hd : src.dirFd = none := by rw [← h.parsed.unmarked]; rfl
  have hroot : src.IsRoot ↔ src.pathPrefix = [SLASH] := by
    rw [TinyRoute.isRoot_iff, h.parsed.prefixBytes]
  by_cases ht : src.type = .static
  · rcases h.stat ht with rfl | rfl
    · by_cases hr : src.IsRoot
      · have hm : Routing.marked (some .directory) fd src = { src with primary := true } := by
          simp [Routing.marked, ht, hr]
        rw [hm]
        refine ⟨hun, ?_, ?_, ?_⟩ <;> simp [ht, hx, hd, hroot.1 hr]
      · have hm : Routing.marked (some .directory) fd src = { src with dirFd := fd } := by
          simp [Routing.marked, ht, hr]
        rw [hm]
        refine ⟨hun, ?_, ?_, ?_⟩ <;> simp [ht, hx, hp, hfd rfl, mt hroot.2 hr]
    · have hm : Routing.marked (some .regular) fd src = { src with exact := true } := by
        simp [Routing.marked, ht]
      rw [hm]
      refine ⟨hun, ?_, ?_, ?_⟩ <;> simp [ht, hp, hd]
  · have hm : Routing.marked kind fd src = src := if_pos ht
    rw [hm]
    refine ⟨hun, ?_, ?_, ?_⟩ <;> simp [ht, hx, hp, hd]

theorem marked_frame (kind : Option FileKind) (fd : Option Nat) (src : TinyRoute) :
    (Routing.marked kind fd src).pathPrefix = src.pathPrefix ∧
      (Routing.marked kind fd src).prefixLen = src.prefixLen ∧
      (Routing.marked kind fd src).type = src.type := by
  unfold Routing.marked
  split
  · exact ⟨rfl, rfl, rfl⟩
  · split
    · split <;> exact ⟨rfl, rfl, rfl⟩
    · exact ⟨rfl, rfl, rfl⟩

/-- The installed table is the one `TableOf` describes. -/
theorem Loaded.tableOf {t : TinySite} (h : Loaded kinds site)
    (hopen : ∀ i, kinds i = some .directory → (fds i).isSome)
    (ht : t.listed = site.marked kinds fds) : TableOf kinds site t := by
  have hbytes : ∀ r ∈ t.listed, r.pathPrefix = r.prefixBytes := by
    intro r hr
    rw [ht] at hr
    obtain ⟨i, hi⟩ := List.getElem?_of_mem hr
    obtain ⟨src, -, hc, rfl⟩ := h.mem_marked hi
    rw [marked_prefixBytes, (marked_frame _ _ _).1, hc.parsed.prefixBytes]
  refine ⟨?_, ?_, fun r hr => ?_, fun i r hr hs hk => ?_, fun i r hr => ?_, ?_,
    fun i r hr => ?_, fun i r hr => ?_⟩
  · rw [ht]
    apply List.ext_getElem?
    intro i
    cases hi : site.listed[i]? with
    | none => simp [TinySite.marked, hi]
    | some src =>
        have := ((h.checked i src hi).marked_eq (hopen i)).1
        simp [TinySite.marked, hi, this]
  · rw [List.map_congr_left hbytes, ht, Loaded.marked_prefixes]
    exact h.distinct
  · rw [ht] at hr
    obtain ⟨i, hi⟩ := List.getElem?_of_mem hr
    obtain ⟨src, -, hc, rfl⟩ := h.mem_marked hi
    obtain ⟨h₁, h₂, -⟩ := marked_frame (kinds i) (fds i) src
    rw [h₁, h₂]
    exact ⟨hc.parsed.length, hc.parsed.lt⟩
  · rw [ht] at hr
    obtain ⟨src, -, hc, rfl⟩ := h.mem_marked hr
    obtain ⟨h₁, -, h₃⟩ := marked_frame (kinds i) (fds i) src
    rw [h₁, ← hc.parsed.prefixBytes]
    exact (hc.directory (h₃ ▸ hs) hk).prefixBytes hc.parsed.pos
  · rw [ht] at hr
    obtain ⟨src, -, hc, rfl⟩ := h.mem_marked hr
    exact (hc.marked_eq (hopen i)).2.1
  · rw [ht]
    exact h.one_primary
  · rw [ht] at hr
    obtain ⟨src, -, hc, rfl⟩ := h.mem_marked hr
    exact (hc.marked_eq (hopen i)).2.2.1
  · rw [ht] at hr
    obtain ⟨src, -, hc, rfl⟩ := h.mem_marked hr
    exact (hc.marked_eq (hopen i)).2.2.2

/-- `routes_init` accepts what `tiny_site_load` has loaded, while the file system stays as it
is and every directory can be opened. -/
theorem routesInit_loaded {resolve : List UInt8 → List UInt8 → Option (List UInt8)}
    {file : Option (List UInt8)} (hload : tinySiteLoad resolve kinds file = .ok site)
    (hopen : ∀ i, kinds i = some .directory → (fds i).isSome) (g : Router) :
    ∃ g', Router.routesInit kinds fds (some site) g = (.ok (), g') ∧
      TableOf kinds site g'.site := by
  have h := tinySiteLoad_loaded hload
  obtain ⟨g', hg', hlisted⟩ := h.routesInit hopen g
  exact ⟨g', hg', h.tableOf hopen hlisted⟩

theorem exists_ok {ε α : Type} {x : Except ε α} (h : x.isOk = true) : ∃ a, x = .ok a := by
  cases x with
  | error e => cases h
  | ok a => exact ⟨a, rfl⟩

theorem routesInit_loaded_mount :
    ∃ site, tinySiteLoad (fun _ _ => none) (fun _ => some .directory)
        (some (cstr "listen 80\nstatic / ./www\nstatic /img ./images\n")) = .ok site ∧
      ∃ g', Router.routesInit (fun _ => some .directory) (fun i => some (i + 3)) (some site)
          .start = (.ok (), g') ∧ TableOf (fun _ => some .directory) site g'.site := by
  obtain ⟨site, h⟩ := exists_ok (x := tinySiteLoad (fun _ _ => none) (fun _ => some .directory)
    (some (cstr "listen 80\nstatic / ./www\nstatic /img ./images\n"))) (by decide +kernel)
  exact ⟨site, h, routesInit_loaded h (fun _ _ => rfl) .start⟩

end TinyServer.Routing
