import Mathlib.Data.List.Nodup
import Mathlib.Data.List.TakeDrop
import TinyServer.Routing.Install

/-!
# What `routes_init` installs

`Installs` says what the loop of `routes_init` makes of one route of the given site, for
the four kinds of routes. A run that succeeds has installed every route so, and the table
has no prefix twice (`routesInit_ok`); conversely, a site whose routes can all be
installed, with one root at most and no prefix twice, is accepted (`routesInit_of_installs`).
-/

set_option autoImplicit false

namespace TinyServer.Routing

open TinyServer.Http TinyServer.Net TinyServer.Static

/-! ## Routes -/

namespace TinyRoute

/-- A route as `routes_init` copies it. -/
def unmarked (r : TinyRoute) : TinyRoute :=
  { r with dirFd := none, exact := false, primary := false }

/-- The test for the route `/`. -/
def IsRoot (r : TinyRoute) : Prop := r.prefixLen = 1 ∧ r.prefixAt 0 = SLASH

/-- The test for a final slash. -/
def EndsSlash (r : TinyRoute) : Prop := r.prefixAt (r.prefixLen - 1) = SLASH

instance (r : TinyRoute) : Decidable r.IsRoot := inferInstanceAs (Decidable (_ ∧ _))

instance (r : TinyRoute) : Decidable r.EndsSlash := inferInstanceAs (Decidable (_ = _))

/-- The route with a slash after its prefix. -/
def slashed (r : TinyRoute) : TinyRoute :=
  { r with pathPrefix := r.prefixBytes ++ [SLASH], prefixLen := r.prefixLen + 1 }

@[simp] theorem prefixBytes_length (r : TinyRoute) : r.prefixBytes.length = r.prefixLen :=
  List.takeD_length _ _ _

@[simp] theorem unmarked_prefixBytes (r : TinyRoute) : r.unmarked.prefixBytes = r.prefixBytes :=
  rfl

@[simp] theorem slashed_prefixBytes (r : TinyRoute) :
    r.slashed.prefixBytes = r.prefixBytes ++ [SLASH] := by
  have h : r.slashed.prefixLen ≤ r.slashed.pathPrefix.length := by simp [slashed]
  rw [prefixBytes, List.takeD_eq_take _ h, List.take_of_length_le (by simp [slashed])]
  simp [slashed]

/-- The slashed prefix ends in a slash. -/
theorem slashed_endsSlash (r : TinyRoute) : r.slashed.EndsSlash := by
  simp [EndsSlash, prefixAt, slashed]

theorem IsRoot.endsSlash {r : TinyRoute} (h : r.IsRoot) : r.EndsSlash := by
  simpa [EndsSlash, h.1] using h.2

theorem getElem?_prefixBytes {r : TinyRoute} {i : Nat} (h : i < r.prefixLen) :
    r.prefixBytes[i]? = some (r.prefixAt i) := by
  have key : ∀ (n i : Nat) (l : List UInt8), i < n → (l.takeD n 0)[i]? = some (l.getD i 0) := by
    intro n
    induction n with
    | zero => intro i l hi; omega
    | succ n ih =>
        intro i l hi
        cases i <;> cases l <;> simp_all
  exact key _ _ _ h

/-- The bytes of a prefix that ends with a slash. -/
theorem EndsSlash.prefixBytes {r : TinyRoute} (h : r.EndsSlash) (hlen : 0 < r.prefixLen) :
    r.prefixBytes.getLast? = some SLASH := by
  rw [List.getLast?_eq_getElem?, prefixBytes_length, getElem?_prefixBytes (by omega)]
  exact congrArg some h

/-- The root route is the one with the prefix `/`. -/
theorem isRoot_iff {r : TinyRoute} : r.IsRoot ↔ r.prefixBytes = [SLASH] := by
  constructor
  · intro h
    obtain ⟨c, hc⟩ := List.length_eq_one_iff.1 (r.prefixBytes_length.trans h.1)
    have h₀ : r.prefixBytes[0]? = some (r.prefixAt 0) := getElem?_prefixBytes (by simp [h.1])
    rw [hc] at h₀ ⊢
    simpa [h.2] using h₀
  · intro h
    have hlen : r.prefixLen = 1 := by rw [← prefixBytes_length, h]; rfl
    have h₀ : r.prefixBytes[0]? = some (r.prefixAt 0) := getElem?_prefixBytes (by simp [hlen])
    rw [h] at h₀
    exact ⟨hlen, by simpa using h₀.symm⟩

end TinyRoute

/-- `ensure_dir_slash` adds the slash where it is missing and there is room. -/
theorem ensureDirSlash_eq (r : TinyRoute) :
    ensureDirSlash r = if r.EndsSlash then some r
      else if TINY_PREFIX_MAX ≤ r.prefixLen + 1 then none else some r.slashed := by
  by_cases hr : r.IsRoot
  · rw [if_pos hr.endsSlash]
    exact if_pos hr
  · exact if_neg hr

/-- `ensure_dir_slash` adds the slash that is missing. -/
theorem ensureDirSlash_some {r r' : TinyRoute} (h : ensureDirSlash r = some r') :
    r'.EndsSlash ∧ (r' = r ∨ ¬ r.EndsSlash ∧ r.prefixLen + 1 < TINY_PREFIX_MAX ∧ r' = r.slashed) := by
  rw [ensureDirSlash_eq] at h
  by_cases hs : r.EndsSlash
  · rw [if_pos hs] at h
    cases h
    exact ⟨hs, .inl rfl⟩
  · by_cases hl : TINY_PREFIX_MAX ≤ r.prefixLen + 1
    · rw [if_neg hs, if_pos hl] at h
      cases h
    · rw [if_neg hs, if_neg hl] at h
      cases h
      exact ⟨r.slashed_endsSlash, .inr ⟨hs, by omega, rfl⟩⟩

/-- What `routes_init` puts into the table for a route of the site, given what `stat` and
`open` say about its target. -/
inductive Installs (kind : Option FileKind) (fd : Option Nat) (src : TinyRoute) : TinyRoute → Prop
  | other (ht : src.type ≠ .static) : Installs kind fd src src.unmarked
  | root {r : TinyRoute} (ht : src.type = .static) (hk : kind = some .directory)
      (hs : ensureDirSlash src.unmarked = some r) (hr : r.IsRoot) (htarget : src.target ≠ [])
      (hfd : fd.isSome) : Installs kind fd src { r with primary := true }
  | mount {r : TinyRoute} {d : Nat} (ht : src.type = .static) (hk : kind = some .directory)
      (hs : ensureDirSlash src.unmarked = some r) (hr : ¬ r.IsRoot) (hfd : fd = some d) :
      Installs kind fd src { r with dirFd := some d }
  | file (ht : src.type = .static) (hk : kind = some .regular)
      (hs : ¬ (src.EndsSlash ∧ 1 < src.prefixLen)) :
      Installs kind fd src { src.unmarked with exact := true }

/-- There is one way to install a route. -/
theorem Installs.unique {kind : Option FileKind} {fd : Option Nat} {src r r' : TinyRoute}
    (h : Installs kind fd src r) (h' : Installs kind fd src r') : r = r' := by
  cases h <;> cases h' <;> simp_all

namespace Router

section Route

variable {g g' : Router} {i : Nat} {kind : Option FileKind} {fd : Option Nat}
variable {primary p : Bool} {src : TinyRoute}

theorem staticInit_site (g : Router) (docroot : List UInt8) (fd : Option Nat) :
    (g.staticInit docroot fd).2.site = g.site := by
  unfold staticInit
  split
  · rfl
  · split <;> rfl

/-- `static_init` succeeds where there is a root that can be opened. -/
theorem staticInit_ok {docroot : List UInt8} :
    (g.staticInit docroot fd).1 = true ↔ docroot ≠ [] ∧ fd.isSome := by
  unfold staticInit
  by_cases h : docroot = [] <;> cases fd <;> simp [h]

theorem put_put_site (g : Router) (i : Nat) (r r' : TinyRoute) :
    ((g.put i r).put i r').site = (g.put i r').site := by
  simp [put]

/-- A turn of the loop that succeeds. -/
theorem initRoute_ok (h : g.initRoute i kind fd primary src = (.ok p, g')) :
    ∃ r, Installs kind fd src r ∧ g'.site = (g.put i r).site := by
  simp only [initRoute] at h
  split at h
  · rename_i ht
    cases h
    exact ⟨_, .other ht, rfl⟩
  rename_i ht
  have ht : src.type = .static := not_not.1 ht
  split at h
  · cases h
  · -- a directory
    split at h
    · cases h
    rename_i r hs
    split at h
    · rename_i hr
      split at h
      · cases h
      split at h
      · cases h
      rename_i hinit
      cases h
      have hok : ((g.put i r).staticInit r.target fd).1 = true := by rw [hinit]
      have hsite := staticInit_site (g.put i r) r.target fd
      rw [hinit] at hsite
      obtain ⟨htarget, hfd⟩ := staticInit_ok.1 hok
      refine ⟨_, .root ht rfl hs hr ?_ hfd, ?_⟩
      · rcases (ensureDirSlash_some hs).2 with rfl | ⟨-, -, rfl⟩ <;> exact htarget
      · simp only at hsite
        simp [put, hsite]
    · rename_i hr
      split at h
      · cases h
      cases h
      exact ⟨_, .mount ht rfl hs hr rfl, put_put_site _ _ _ _⟩
  · split at h
    · cases h
    rename_i hs
    cases h
    exact ⟨_, .file ht rfl hs, rfl⟩
  · cases h

/-- A route that can be installed, unless it is a second root, is. -/
theorem initRoute_of_installs {r : TinyRoute} (h : Installs kind fd src r)
    (hroot : ¬ (primary = true ∧ r.primary = true)) :
    ∃ g', g.initRoute i kind fd primary src = (.ok (primary || r.primary), g') := by
  cases h with
  | other ht =>
      refine ⟨g.put i src.unmarked, ?_⟩
      simp [initRoute, ht, TinyRoute.unmarked]
  | @root r ht hk hs hr htarget hfd =>
      subst hk
      have hprimary : primary = false := by simpa using hroot
      have hinit : ((g.put i r).staticInit r.target fd).1 = true := by
        refine staticInit_ok.2 ⟨?_, hfd⟩
        rcases (ensureDirSlash_some hs).2 with rfl | ⟨-, -, rfl⟩ <;> exact htarget
      rcases hg : (g.put i r).staticInit r.target fd with ⟨b, g₁⟩
      rw [hg] at hinit
      cases hinit
      refine ⟨g₁.put i { r with primary := true }, ?_⟩
      simp only [TinyRoute.unmarked] at hs
      simp only [initRoute, if_neg (not_not.2 ht), hs, hg, hprimary]
      exact if_pos hr
  | @mount r d ht hk hs hr hfd =>
      subst hk hfd
      have hp : r.primary = false := by
        rcases (ensureDirSlash_some hs).2 with rfl | ⟨-, -, rfl⟩ <;> rfl
      refine ⟨((g.put i r).call (.openFile r.target (some d))).put i { r with dirFd := some d }, ?_⟩
      simp only [TinyRoute.unmarked] at hs
      simp only [initRoute, if_neg (not_not.2 ht), hs, hp, Bool.or_false]
      exact if_neg hr
  | file ht hk hs =>
      subst hk
      refine ⟨g.put i { src.unmarked with exact := true }, ?_⟩
      simp only [initRoute, if_neg (not_not.2 ht), TinyRoute.unmarked, Bool.or_false]
      exact if_neg hs

end Route

/-! ## The loop -/

/-- Every route that the loop has gone over is installed, the earlier ones are as they were. -/
theorem initLoop_ok {kinds : Nat → Option FileKind} {fds : Nat → Option Nat}
    {rest : List TinyRoute} :
    ∀ {i : Nat} {primary : Bool} {g g' : Router}, i + rest.length ≤ g.site.routes.length →
      initLoop kinds fds i primary rest g = (.ok (), g') →
      g'.site.nroutes = g.site.nroutes ∧
      (∀ j < i, g'.site.routes[j]? = g.site.routes[j]?) ∧
      ∀ k src, rest[k]? = some src →
        ∃ r, g'.site.routes[i + k]? = some r ∧ Installs (kinds (i + k)) (fds (i + k)) src r := by
  induction rest with
  | nil =>
      intro i primary g g' _ h
      cases h
      exact ⟨rfl, fun _ _ => rfl, fun k src hk => by simp at hk⟩
  | cons src rest ih =>
      intro i primary g g' hlen h
      simp only [initLoop] at h
      split at h
      · cases h
      rename_i p g₁ hstep
      obtain ⟨r, hr, hsite⟩ := initRoute_ok hstep
      have hroutes : g₁.site.routes = g.site.routes.set i r := by rw [hsite]; rfl
      simp only [List.length_cons] at hlen
      obtain ⟨hn, hbefore, hafter⟩ := ih (by rw [hroutes, List.length_set]; omega) h
      refine ⟨hn.trans (by rw [hsite]; rfl), fun j hj => ?_, fun k s hk => ?_⟩
      · rw [hbefore j (by omega), hroutes, List.getElem?_set_ne (by omega)]
      · cases k with
        | zero =>
            simp only [List.getElem?_cons_zero, Option.some.injEq] at hk
            subst hk
            refine ⟨r, ?_, hr⟩
            rw [Nat.add_zero, hbefore i (by omega), hroutes, List.getElem?_set_self (by omega)]
        | succ k =>
            have hk : rest[k]? = some s := by simpa using hk
            rw [show i + (k + 1) = i + 1 + k by omega]
            exact hafter k s hk

/-- The loop goes over all routes if each can be installed and one of them at most is a
root. -/
theorem initLoop_of_installs {kinds : Nat → Option FileKind} {fds : Nat → Option Nat}
    {rest rs : List TinyRoute} :
    ∀ {i : Nat} {primary : Bool} {g : Router},
      (∀ k src, rest[k]? = some src →
        ∃ r, rs[k]? = some r ∧ Installs (kinds (i + k)) (fds (i + k)) src r) →
      (primary :: rs.map TinyRoute.primary).count true ≤ 1 →
      ∃ g', initLoop kinds fds i primary rest g = (.ok (), g') := by
  induction rest generalizing rs with
  | nil => exact fun _ _ => ⟨_, rfl⟩
  | cons src rest ih =>
      intro i primary g hall hcount
      obtain ⟨r, hr, hinst⟩ := hall 0 src rfl
      rw [Nat.add_zero] at hinst
      rcases rs with _ | ⟨r', rs⟩
      · simp at hr
      obtain rfl : r' = r := by simpa using hr
      have hroot : ¬ (primary = true ∧ r'.primary = true) := by
        rintro ⟨h₁, h₂⟩
        simp [h₁, h₂] at hcount
      obtain ⟨g₁, hstep⟩ := initRoute_of_installs (g := g) (i := i) hinst hroot
      have hcount' : ((primary || r'.primary) :: rs.map TinyRoute.primary).count true ≤ 1 := by
        cases primary <;> cases h : r'.primary <;> simp_all
      have hall' : ∀ k s, rest[k]? = some s →
          ∃ q, rs[k]? = some q ∧ Installs (kinds (i + 1 + k)) (fds (i + 1 + k)) s q := by
        intro k s hk
        obtain ⟨q, hq, hi⟩ := hall (k + 1) s (by simpa using hk)
        exact ⟨q, by simpa using hq, by rwa [show i + 1 + k = i + (k + 1) by omega]⟩
      obtain ⟨g', hrest⟩ := ih hall' hcount' (g := g₁)
      exact ⟨g', by simp [initLoop, hstep, hrest]⟩

end Router

/-! ## Duplicates -/

/-- The C comparison of lengths and bytes is equality of prefixes. -/
theorem samePrefix_iff {a b : TinyRoute} :
    samePrefix a b = true ↔ a.prefixBytes = b.prefixBytes := by
  simp only [samePrefix, Bool.and_eq_true, beq_iff_eq, and_iff_right_iff_imp]
  intro h
  rw [← a.prefixBytes_length, h, b.prefixBytes_length]

/-- No duplicate is reported iff the prefixes are distinct. -/
theorem firstDuplicate_eq_none {rs seen : List TinyRoute} :
    firstDuplicate seen rs = none ↔
      (rs.map TinyRoute.prefixBytes).Nodup ∧
        ∀ r ∈ rs, ∀ s ∈ seen, r.prefixBytes ≠ s.prefixBytes := by
  induction rs generalizing seen with
  | nil => simp [firstDuplicate]
  | cons r rs ih =>
      by_cases hany : seen.any (samePrefix r) = true
      · obtain ⟨s, hs, hr⟩ := List.any_eq_true.1 hany
        rw [firstDuplicate, if_pos hany]
        simp only [reduceCtorEq, false_iff, not_and]
        exact fun _ h => h r (List.mem_cons_self ..) s hs (samePrefix_iff.1 hr)
      · have hr : ∀ s ∈ seen, r.prefixBytes ≠ s.prefixBytes := fun s hs h =>
          hany (List.any_eq_true.2 ⟨s, hs, samePrefix_iff.2 h⟩)
        rw [firstDuplicate, if_neg hany, ih]
        simp only [List.map_cons, List.nodup_cons, List.mem_map, not_exists, not_and,
          List.mem_append, List.mem_cons, List.not_mem_nil, or_false, forall_eq_or_imp]
        constructor
        · rintro ⟨hn, h⟩
          exact ⟨⟨fun s hs => h s hs r (.inr rfl), hn⟩, hr, fun s hs t ht => h s hs t (.inl ht)⟩
        · rintro ⟨⟨hne, hn⟩, -, h⟩
          refine ⟨hn, fun s hs t ht => ?_⟩
          rcases ht with ht | rfl
          · exact h s hs t ht
          · exact hne s hs

/-! ## The table -/

section Table

variable {kinds : Nat → Option FileKind} {fds : Nat → Option Nat}
variable {site : TinySite} {g g' : Router}

theorem TinySite.getElem?_listed {s : TinySite} {i : Nat} (h : i < s.nroutes) :
    s.listed[i]? = s.routes[i]? := List.getElem?_take_of_lt h

@[simp] theorem TinySite.listed_length (s : TinySite) : s.listed.length = s.nroutes := by
  rw [listed, List.length_take, s.routes_length, Nat.min_eq_left s.nroutes_le]

/-- After a `routes_init` that succeeds the table has the routes of the site, each
installed, and no prefix twice. -/
theorem routesInit_ok (h : Router.routesInit kinds fds (some site) g = (.ok (), g')) :
    site.port ≠ 0 ∧ g'.site.nroutes = site.nroutes ∧
      (∀ i src, site.listed[i]? = some src →
        ∃ r, g'.site.listed[i]? = some r ∧ Installs (kinds i) (fds i) src r) ∧
      (g'.site.listed.map TinyRoute.prefixBytes).Nodup := by
  simp only [Router.routesInit] at h
  split at h
  · cases h
  rename_i hport
  simp only [Router.install] at h
  split at h
  · cases h
  rename_i g₁ hloop
  split at h
  · cases h
  rename_i hdup
  cases h
  obtain ⟨hn, -, hall⟩ := Router.initLoop_ok (by
    have := site.nroutes_le
    simpa [siteClear] using this) hloop
  have hn : g₁.site.nroutes = site.nroutes := hn
  refine ⟨hport, hn, fun i src hi => ?_, (firstDuplicate_eq_none.1 hdup).1⟩
  obtain ⟨r, hr, hinst⟩ := hall i src hi
  have hlt : i < site.nroutes := by
    have := (List.getElem?_eq_some_iff.1 hi).1
    simpa using this
  rw [Nat.zero_add] at hr hinst
  refine ⟨r, ?_, hinst⟩
  rw [← hr]
  exact TinySite.getElem?_listed (by simpa [hn] using hlt)

/-- A site is accepted if each route can be installed, with one root at most, and the
table then has no prefix twice. -/
theorem routesInit_of_installs {rs : List TinyRoute} (hport : site.port ≠ 0)
    (hlen : rs.length = site.nroutes)
    (hall : ∀ i src, site.listed[i]? = some src →
      ∃ r, rs[i]? = some r ∧ Installs (kinds i) (fds i) src r)
    (hroot : (rs.map TinyRoute.primary).count true ≤ 1)
    (hd : (rs.map TinyRoute.prefixBytes).Nodup) (g : Router) :
    ∃ g', Router.routesInit kinds fds (some site) g = (.ok (), g') := by
  have hcount : (false :: rs.map TinyRoute.primary).count true ≤ 1 := by simpa using hroot
  obtain ⟨g₁, hloop⟩ := Router.initLoop_of_installs (i := 0)
    (g := { g.routesShutdown with site := { siteClear with
      port := site.port, nroutes := site.nroutes, nroutes_le := site.nroutes_le } })
    (fun k src hk => by simpa using hall k src hk) hcount
  obtain ⟨hn, -, hinst⟩ := Router.initLoop_ok (by
    have := site.nroutes_le
    simpa [siteClear] using this) hloop
  have hn : g₁.site.nroutes = site.nroutes := hn
  have hlisted : g₁.site.listed = rs := by
    apply List.ext_getElem?
    intro i
    by_cases hi : i < site.nroutes
    · obtain ⟨src, hsrc⟩ : ∃ src, site.listed[i]? = some src :=
        ⟨_, List.getElem?_eq_getElem (by simpa using hi)⟩
      obtain ⟨r, hr, hr'⟩ := hinst i src hsrc
      obtain ⟨q, hq, hq'⟩ := hall i src hsrc
      rw [Nat.zero_add] at hr hr'
      rw [TinySite.getElem?_listed (by omega), hr, hq, hr'.unique hq']
    · rw [List.getElem?_eq_none (by simp; omega), List.getElem?_eq_none (by omega)]
  have hdup : firstDuplicate [] g₁.site.listed = none :=
    firstDuplicate_eq_none.2 ⟨by rwa [hlisted], by simp⟩
  refine ⟨{ g₁ with ready := true }, ?_⟩
  simp only [Router.routesInit, if_neg hport, Router.install]
  simp only [hloop, hdup]

end Table

end TinyServer.Routing
