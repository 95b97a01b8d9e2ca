import TinyServer.Proxy.Pool
import TinyServer.Serve.Loop
import TinyServer.Static.Armed

/-!
# The descriptors of a worker

While a worker handles a slot, its descriptors are those of the handler, of the slot's
proxy state, of the client and of the idle pool (`Turn.ledger`). Every function from
`arm_close` to the body of the event loop only moves them (`Goes`), and keeps track of
which address each upstream socket is connected to.
-/

set_option autoImplicit false

namespace TinyServer.Serve

open TinyServer.Http TinyServer.Net TinyServer.Proxy TinyServer.Static TinyServer.Routing
open TinyServer.Net.Holding

/-- The socket found was connected to the address asked for. -/
def Take.Right (k : Take) : Prop := ∃ a, k.peer = some a ∧ a.take k.len = k.addr.take k.len

namespace Turn

/-! ## What is kept -/

/-- The socket of the client of an active slot. -/
def clientFd (t : Turn) : Option Nat := if t.active then t.hc.fd else none

/-- What the slot has of its upstream connection while a handler runs. -/
def link (t : Turn) : Link := t.world.link true

/-- The descriptors that no handler of static responses touches. -/
def sockets (t : Turn) (j : Nat) (d : Holding Place) (l : Link) : Holding Place :=
  (d.link j l).put (.slot j .client) (t.clientFd.map fun fd => (fd, 0))

/-- The descriptors of a worker that handles the slot `j`; `d` has those of the other
slots. -/
def ledger (t : Turn) (j : Nat) (d : Holding Place) : Holding Place :=
  t.toHandler.on j (t.sockets j d t.link) none

/-- A connection that waits for a request has no file and an empty arena, a closed one
has no descriptor but its own. -/
structure Fit (t : Turn) : Prop where
  cache : t.cache.Ok
  fresh : t.hc.phase = .read → t.hc.fileFd = none ∧ t.arena = 0
  closed : t.active = false → t.hc.fileFd = none ∧ t.px.fd = none

/-- The upstream sockets are connected to where they should be, and so was every idle
socket that was found. -/
structure Peers (t : Turn) : Prop where
  link : PeersOk t.log t.link
  takes : ∀ k ∈ t.trail.takes, k.Right

/-- The upstream sockets of the slot `j` stay connected as they should be, those of the
other slots as they are. -/
structure Tracks (t t' : Turn) (j : Nat) (d : Holding Place) : Prop where
  peers : t.Peers → t'.Peers
  others : ∀ k fd m, k ≠ j → d.place (.slot k .upstream) = some (fd, m) →
    connectedTo fd t'.log = connectedTo fd t.log

/-- The slot `j` stays as it is for the worker, or it is closed. -/
def Frees (j : Nat) (t t' : Turn) : Prop :=
  (t'.active = t.active ∧ t'.freeStack = t.freeStack) ∨
    (t.active = true ∧ t'.active = false ∧ t'.freeStack = j :: t.freeStack)

/-- `t'` comes from `t` by moves of the slot `j`. -/
def Goes (j : Nat) (t t' : Turn) : Prop :=
  t.Fit → t'.Fit ∧ Frees j t t' ∧ ∃ cs, t'.log = t.log ++ cs ∧
    (∀ d, Plain d → PlaceMoves j (t.ledger j d) cs (t'.ledger j d)) ∧
    ∀ n d, Plain d → j < n → n ≤ UINT16_MAX →
      Sound Place.kind n (openFds t.log) (t.ledger j d) → FreshAfter (openFds t.log) cs →
      Tracks t t' j d

section Goes

variable {j : Nat} {t t' t'' : Turn}

theorem Frees.trans (h : Frees j t t') (h' : Frees j t' t'') : Frees j t t'' := by
  rcases h with ⟨hactive, hfree⟩ | ⟨hon, hoff, hfree⟩
  · rcases h' with ⟨hactive', hfree'⟩ | ⟨hon', hoff', hfree'⟩
    · exact Or.inl ⟨hactive'.trans hactive, hfree'.trans hfree⟩
    · rw [hfree] at hfree'
      exact Or.inr ⟨hactive.symm.trans hon', hoff', hfree'⟩
  · rcases h' with ⟨hactive', hfree'⟩ | ⟨hon', -, -⟩
    · exact Or.inr ⟨hon, hactive'.trans hoff, hfree'.trans hfree⟩
    · rw [hoff] at hon'
      cases hon'

theorem Goes.trans (h : Goes j t t') (h' : Goes j t' t'') : Goes j t t'' := by
  intro hfit
  obtain ⟨hfit', hfree, cs, hlog, hm, hp⟩ := h hfit
  obtain ⟨hfit'', hfree', cs', hlog', hm', hp'⟩ := h' hfit'
  refine ⟨hfit'', hfree.trans hfree', cs ++ cs', ?_, fun d hd => (hm d hd).trans (hm' d hd), ?_⟩
  · rw [hlog', hlog, List.append_assoc]
  · intro n d hd hj hn hs hfresh
    rw [freshAfter_append] at hfresh
    have hs' := (hm d hd).sound hj hn hs hfresh.1
    rw [← openFds_append, ← hlog] at hs' hfresh
    have htr := hp n d hd hj hn hs hfresh.1
    have htr' := hp' n d hd hj hn hs' hfresh.2
    refine ⟨htr'.peers ∘ htr.peers, fun k fd m hk hplace => ?_⟩
    exact (htr'.others k fd m hk hplace).trans (htr.others k fd m hk hplace)

/-- No descriptor moves. -/
theorem Goes.same (hfit : t.Fit → t'.Fit)
    (hfree : t'.active = t.active ∧ t'.freeStack = t.freeStack) (hlog : t'.log = t.log)
    (hledger : ∀ d, t'.ledger j d = t.ledger j d) (hpool : t'.pool = t.pool)
    (hpx : t'.px = t.px) (htakes : t'.trail.takes = t.trail.takes) : Goes j t t' := by
  intro hf
  refine ⟨hfit hf, Or.inl hfree, [], by rw [hlog, List.append_nil], fun d _ => ?_, ?_⟩
  · rw [hledger]
    exact .refl _
  · intro n d _ _ _ _ _
    refine ⟨fun hpeers => ⟨⟨?_, ?_⟩, by rw [htakes]; exact hpeers.takes⟩, fun _ _ _ _ _ => ?_⟩
    · show ∀ e ∈ t'.pool, _
      rw [hlog, hpool]
      exact hpeers.link.pool
    · show ∀ fd, t'.px.fd = some fd → _ → Peer t'.log fd t'.px.upAddr t'.px.upLen
      rw [hlog, hpx]
      exact hpeers.link.upstream
    · rw [hlog]

/-- Calls that make and connect no socket. -/
theorem Tracks.still {cs : List ControlCall} (j : Nat) (d : Holding Place)
    (hlog : t'.log = t.log ++ cs) (hdial : ∀ c ∈ cs, c.dials = false) (hpool : t'.pool = t.pool)
    (hpx : t'.px = t.px) (htakes : t'.trail.takes = t.trail.takes) :
    Tracks t t' j d := by
  refine ⟨fun hpeers => ⟨⟨?_, ?_⟩, by rw [htakes]; exact hpeers.takes⟩, fun k fd m _ _ => ?_⟩
  · have hstill := (hpeers.link.still hdial).pool
    rw [← hlog] at hstill
    show ∀ e ∈ t'.pool, _
    rw [hpool]
    exact hstill
  · have hstill := (hpeers.link.still hdial).upstream
    rw [← hlog] at hstill
    show ∀ fd, t'.px.fd = some fd → _ → Peer t'.log fd t'.px.upAddr t'.px.upLen
    rw [hpx]
    exact hstill
  · rw [hlog]
    exact connectedTo_still fd hdial

theorem Goes.refl (t : Turn) : Goes j t t := .same id ⟨rfl, rfl⟩ rfl (fun _ => rfl) rfl rfl rfl

end Goes

/-! ## The ledger and its parts -/

section Ledger

variable (t : Turn) (j : Nat) (d : Holding Place)

theorem sockets_plain (l : Link) (hd : Plain d) : Plain (t.sockets j d l) := by
  constructor
  · intro k fd n h
    have hidle : idlePlace l.pool k = some (fd, n) :=
      (put_place_ne _ _ (by exact nofun)).symm.trans h
    obtain ⟨e, -, he⟩ := Option.map_eq_some_iff.1 hidle
    exact (congrArg Prod.snd he).symm
  · intro k part fd n h
    by_cases hc : Place.slot k part = .slot j .client
    · rw [hc] at h
      have hclient : t.clientFd.map (fun fd => (fd, 0)) = some (fd, n) :=
        (put_place_self _ _ _).symm.trans h
      obtain ⟨e, -, he⟩ := Option.map_eq_some_iff.1 hclient
      exact (congrArg Prod.snd he).symm
    · have hplace : (d.link j l).place (.slot k part) = some (fd, n) :=
        (put_place_ne _ _ hc).symm.trans h
      cases part with
      | upstream =>
          by_cases hk : k = j
          · rw [hk, link_upstream] at hplace
            obtain ⟨e, -, he⟩ := Option.map_eq_some_iff.1 hplace
            exact (congrArg Prod.snd he).symm
          · exact hd.2 k .upstream fd n ((if_neg hk).symm.trans hplace)
      | client => exact hd.2 k .client fd n hplace
      | own => exact hd.2 k .own fd n hplace
      | opened => exact hd.2 k .opened fd n hplace

/-- The link of the slot changes. -/
theorem ledger_link (l : Link) :
    (t.ledger j d).link j l = t.toHandler.on j (t.sockets j d l) none := by
  have hother : ∀ (l : Link) p, p ≠ .slot j .client →
      (t.sockets j d l).place p = (d.link j l).place p := fun l p hp => put_place_ne _ _ hp
  refine eq_of (fun p => ?_) (fun _ => rfl) rfl
  cases p with
  | cached | retired => rfl
  | idle n => exact (hother l (.idle n) nofun).symm
  | slot k part =>
      cases part with
      | upstream =>
          refine Eq.trans ?_ (hother l (.slot k .upstream) nofun).symm
          by_cases hk : k = j
          · exact (if_pos hk).trans (if_pos hk).symm
          · refine (if_neg hk).trans (Eq.trans ?_ (if_neg hk).symm)
            exact (hother t.link (.slot k .upstream) nofun).trans (if_neg hk)
      | client =>
          by_cases hk : k = j
          · rw [hk]
            exact (put_place_self _ _ _).trans (put_place_self _ _ _).symm
          · have hne : Place.slot k .client ≠ .slot j .client := fun he => hk (by cases he; rfl)
            exact (hother t.link _ hne).trans (hother l _ hne).symm
      | own | opened =>
          by_cases hk : k = j
          · exact (if_pos hk).trans (if_pos hk).symm
          · exact (if_neg hk).trans (if_neg hk).symm

theorem ledger_self : (t.ledger j d).link j t.link = t.ledger j d := ledger_link t j d t.link

end Ledger

/-! ## Handlers and worlds -/

section Lift

variable {j : Nat} {t : Turn}

/-- The handler waits for a request only if it did before, with nothing in its hands. -/
def Calm (h h' : Handler) : Prop :=
  h'.hc.phase = .read → h.hc.phase = .read ∧ (h.hc.fileFd = none → h'.hc.fileFd = none) ∧
    (h.arena = 0 → h'.arena = 0)

/-- A function of static responses. -/
theorem withHandler_goes {h : Handler} (hs : Steps t.toHandler none h none)
    (hcalm : Calm t.toHandler h) (hactive : t.active = true ∨ h.hc.fileFd = none) :
    Goes j t (t.withHandler h) := by
  intro hfit
  obtain ⟨hfd, hok, cs, hcalls, hfiles, hm⟩ := hs hfit.cache
  refine ⟨⟨hok, fun hphase => ?_, fun hclosed => ?_⟩, Or.inl ⟨rfl, rfl⟩, cs, ?_, fun d hd => ?_, ?_⟩
  · obtain ⟨hread, hfile, harena⟩ := hcalm hphase
    obtain ⟨hnone, hzero⟩ := hfit.fresh hread
    exact ⟨hfile hnone, harena hzero⟩
  · refine ⟨?_, (hfit.closed hclosed).2⟩
    rcases hactive with hactive | hnone
    · rw [show t.active = false from hclosed] at hactive
      cases hactive
    · exact hnone
  · show t.calls ++ h.kernel.wire.calls = (t.calls ++ t.kernel.wire.calls) ++ cs
    rw [hcalls, List.append_assoc]
  · have hsame : (t.withHandler h).sockets j d (t.withHandler h).link =
        t.sockets j d t.link := by
      unfold sockets clientFd
      rw [show (t.withHandler h).hc.fd = t.hc.fd from hfd]
      congr 1
    have hmoves := hm j _ (sockets_plain t j d t.link hd)
    unfold ledger
    rw [hsame]
    exact hmoves
  · intro n d _ _ _ _ _
    have hlog : (t.withHandler h).log = t.log ++ cs := by
      show t.calls ++ h.kernel.wire.calls = (t.calls ++ t.kernel.wire.calls) ++ cs
      rw [hcalls, List.append_assoc]
    exact .still j d hlog (fun c hc => ControlCall.dials_of_files (hfiles c hc)) rfl rfl rfl

/-- A function of proxied responses. -/
theorem withWorld_goes {v : World} {addr : List UInt8} {len : Nat}
    (hl : World.Begun addr len t.world v) (hactive : t.active = true)
    (proxying : Bool) : Goes j t { t.withWorld v with proxying := proxying } := by
  obtain ⟨hclient, hreply, cs, hcalls, hm⟩ := hl
  have hfd : v.hc.fd = t.hc.fd := World.client_get HttpConn.fd hclient
  have hfileFd : v.hc.fileFd = t.hc.fileFd := World.client_get HttpConn.fileFd hclient
  have howned : v.hc.fileOwned = t.hc.fileOwned := World.client_get HttpConn.fileOwned hclient
  have hlog : { t.withWorld v with proxying := proxying }.log = t.log ++ cs := by
    show t.calls ++ v.kernel.wire.calls = (t.calls ++ t.kernel.wire.calls) ++ cs
    rw [hcalls]
    exact (List.append_assoc _ _ _).symm
  intro hfit
  refine ⟨⟨hfit.cache, fun hread => ?_, fun hclosed => ?_⟩, Or.inl ⟨rfl, rfl⟩, cs, hlog,
    fun d _ => ?_, ?_⟩
  · obtain ⟨hnone, hzero⟩ := hfit.fresh (hreply.read hread)
    exact ⟨hfileFd.trans hnone, hzero⟩
  · rw [show t.active = false from hclosed] at hactive
    cases hactive
  · have hledger : { t.withWorld v with proxying := proxying }.ledger j d =
        (t.ledger j d).link j (v.link true) := by
      rw [ledger_link]
      unfold ledger
      have hsockets : { t.withWorld v with proxying := proxying }.sockets j d
          { t.withWorld v with proxying := proxying }.link = t.sockets j d (v.link true) := by
        unfold sockets clientFd
        rw [show ({ t.withWorld v with proxying := proxying } : Turn).hc.fd = t.hc.fd from hfd]
        rfl
      rw [hsockets]
      exact on_congr j _ none rfl rfl rfl hfileFd howned
    have hmoves := hm.places j (t.ledger j d)
    rw [show t.world.link true = t.link from rfl, ledger_self] at hmoves
    rw [hledger]
    exact hmoves
  · intro n d hd hj hn hs hfresh
    rw [← ledger_self] at hs
    refine ⟨fun hpeers => ⟨?_, hpeers.takes⟩, fun k fd m hk hplace => ?_⟩
    · have hlink := hm.peers hj hn hs hfresh hpeers.link
      rw [← hlog] at hlink
      exact hlink
    · rw [hlog]
      refine hm.others hj hn hs hfresh (k := m) hk ?_
      have hsame : (t.sockets j d t.link).place (.slot k .upstream) =
          (d.link j t.link).place (.slot k .upstream) := put_place_ne _ _ nofun
      exact hsame.trans ((if_neg hk).trans hplace)

end Lift

/-! ## Requests -/

/-- The connection has no file and an empty arena, as a new request needs it. -/
def Empty (t : Turn) : Prop := t.hc.fileFd = none ∧ t.arena = 0

/-- A function that handles a request leaves the slot active, and empty where it waits for
more of the request. -/
def Leads (j : Nat) (t : Turn) (r : HttpIo × Turn) : Prop :=
  t.Fit → t.active = true → t.Empty →
    Goes j t r.2 ∧ r.2.active = true ∧ (r.1 = .wantRead → r.2.Empty)

section Requests

variable {j : Nat} {t : Turn} (now : Nat)

theorem Leads.after {t' : Turn} {r : HttpIo × Turn} (h : Goes j t t') (hactive : t'.active = t.active)
    (hempty : t.Empty → t'.Empty) (h' : Leads j t' r) : Leads j t r := by
  intro hfit hact hnone
  obtain ⟨hgoes, hlast⟩ := h' (h hfit).1 (hactive.trans hact) (hempty hnone)
  exact ⟨h.trans hgoes, hlast⟩

theorem Leads.stay (t : Turn) (io : HttpIo) : Leads j t (io, t) :=
  fun _ hactive hempty => ⟨.refl t, hactive, fun _ => hempty⟩

theorem settle_goes (t : Turn) : Goes j t t.settle := by
  refine .same (fun hf => ⟨hf.cache, hf.fresh, hf.closed⟩) ⟨rfl, rfl⟩ (List.append_nil _) (fun d => ?_)
    rfl rfl rfl
  have hlink : t.settle.sockets j d t.settle.link = t.sockets j d t.link := by
    unfold sockets
    rw [link_congr d j t.link (m := t.settle.link) rfl rfl]
    rfl
  unfold ledger
  rw [hlink]
  rfl

/-- The response changes. -/
theorem hc_goes (t : Turn) (hc : HttpConn) (hfd : hc.fd = t.hc.fd)
    (hfile : hc.fileFd = t.hc.fileFd) (howned : hc.fileOwned = t.hc.fileOwned)
    (hphase : hc.phase = .read → t.hc.phase = .read) : Goes j t { t with hc := hc } := by
  refine .same (fun hf => ⟨hf.cache, fun hread => ?_, fun hclosed => ?_⟩) ⟨rfl, rfl⟩ rfl
    (fun d => ?_) rfl rfl rfl
  · obtain ⟨hnone, hzero⟩ := hf.fresh (hphase hread)
    exact ⟨hfile.trans hnone, hzero⟩
  · obtain ⟨hnone, hup⟩ := hf.closed hclosed
    exact ⟨hfile.trans hnone, hup⟩
  · have hsockets : ({ t with hc := hc } : Turn).sockets j d ({ t with hc := hc } : Turn).link =
        t.sockets j d t.link := by
      unfold sockets clientFd
      rw [show ({ t with hc := hc } : Turn).hc.fd = t.hc.fd from hfd]
      rfl
    unfold ledger
    rw [hsockets]
    exact on_congr j _ none rfl rfl rfl hfile howned

theorem armClose_goes (t : Turn) (resp : List UInt8) (status : Nat) :
    Goes j t (t.armClose resp status now) := hc_goes t _ rfl rfl rfl nofun

theorem httpConnOnWrite_calm (h : Handler) : Calm h (h.httpConnOnWrite now).2 := by
  intro hread
  by_cases hphase : h.hc.phase = .read
  · obtain ⟨hfile, harena⟩ := h.httpConnOnWrite_read now hphase
    exact ⟨hphase, fun hnone => hfile.trans hnone, fun hzero => harena.trans hzero⟩
  · exact absurd hread (h.httpConnOnWrite_phase now hphase).1

theorem onWrite_goes (hactive : t.active = true) : Goes j t (t.onWrite now).2 :=
  withHandler_goes (Handler.httpConnOnWrite_steps t.toHandler now)
    (httpConnOnWrite_calm now t.toHandler) (Or.inl hactive)

/-- A response that is armed is sent at once. -/
theorem onWrite_leads (hphase : t.hc.phase ≠ .read) : Leads j t (t.onWrite now) := by
  intro _ hactive _
  refine ⟨onWrite_goes now hactive, hactive, fun hio => ?_⟩
  exact absurd hio (t.toHandler.httpConnOnWrite_phase now hphase).2

theorem armClose_leads (t : Turn) (resp : List UInt8) (status : Nat) :
    Leads j t ((t.armClose resp status now).onWrite now) :=
  .after (armClose_goes now t resp status) rfl id (onWrite_leads now nofun)

/-- What `static_serve` leaves. -/
theorem armed_leads {h : Handler} (hs : Steps t.toHandler none h none)
    (ha : Armed now t.toHandler h) : Leads j t (.wantWrite, t.withHandler h) := by
  intro _ hactive _
  refine ⟨withHandler_goes hs (fun hread => ?_) (Or.inl hactive), hactive, nofun⟩
  exact absurd hread ha.ready.phase

/-! ## Routing -/

/-- The path of an accepted request stays on its line. -/
theorem cr_not_mem_requestPath {hc : HttpConn} (hparsed : httpParseRequest hc.buf = .ok hc.req) :
    CR ∉ (requestPath hc).1.take (requestPath hc).2.toNat := by
  obtain ⟨hd, hacc⟩ := exists_head_of_accept hparsed
  unfold requestPath
  split
  · decide
  · exact hacc.cr_not_mem_path (Nat.mod_le _ _)

theorem cr_not_mem_query {hc : HttpConn} (hparsed : httpParseRequest hc.buf = .ok hc.req) :
    CR ∉ hc.req.query.bytes hc.buf := by
  obtain ⟨hd, hacc⟩ := exists_head_of_accept hparsed
  exact hacc.cr_not_mem_query

/-- `static_serve` for an accepted request. -/
theorem staticServe_leads (allowDotfiles : Bool) (dirFd : Option Nat) (useCache : Bool)
    (url : List UInt8) (urlLen : UInt16) {redir : List UInt8}
    (hparsed : httpParseRequest t.hc.buf = .ok t.hc.req) (hredir : CR ∉ redir) :
    Leads j t (.wantWrite, t.withHandler
      (t.toHandler.staticServe allowDotfiles dirFd useCache url urlLen redir now)) := by
  intro hfit hactive hempty
  have hsteps := Handler.staticServe_steps t.toHandler now allowDotfiles dirFd useCache url urlLen
    redir hempty.1 hempty.2
  have harmed := Handler.staticServe_armed t.toHandler now allowDotfiles dirFd useCache url urlLen
    hempty.1 hempty.2 hfit.cache hredir (cr_not_mem_query hparsed)
  exact armed_leads now hsteps harmed hfit hactive hempty

theorem serveMount_leads (site : Site) (r : Route) {path : List UInt8}
    (hparsed : httpParseRequest t.hc.buf = .ok t.hc.req) (hpath : CR ∉ path) :
    Leads j t (.wantWrite, serveMount site t r path now) := by
  unfold serveMount
  extract_lets cut loc
  split
  · exact staticServe_leads now _ _ _ _ _ hparsed hpath
  split
  · exact fun _ hactive _ => ⟨armClose_goes now t _ _, hactive, nofun⟩
  · exact staticServe_leads now _ _ _ _ _ hparsed hpath

/-- The idle sockets that are found are noted. -/
theorem takes_goes (t : Turn) (r : Route) :
    Goes j t { t with trail := { t.trail with takes := t.trail.takes ++ t.takes r } } := by
  intro hfit
  refine ⟨⟨hfit.cache, hfit.fresh, hfit.closed⟩, Or.inl ⟨rfl, rfl⟩, [], (List.append_nil _).symm,
    fun d _ => .refl _, ?_⟩
  intro n d _ _ _ _ _
  refine ⟨fun hpeers => ⟨hpeers.link, fun k hk => ?_⟩, fun _ _ _ _ _ => rfl⟩
  rcases List.mem_append.1 hk with hk | hk
  · exact hpeers.takes k hk
  · unfold takes at hk
    split at hk
    · cases hk
    · rename_i fd hfd
      rw [List.mem_singleton.1 hk]
      have htake : proxyPoolTake t.pool r.upstream r.upstreamLen =
          (some fd, (proxyPoolTake t.pool r.upstream r.upstreamLen).2) := Prod.ext hfd rfl
      exact hpeers.link.take htake

theorem proxyBegin_leads {fuel : Nat} {r : Route} {res : HttpIo × Turn}
    (h : t.proxyBegin fuel r now = some res) : Leads j t res := by
  obtain ⟨⟨io, v⟩, hv, rfl⟩ := Option.map_eq_some_iff.1 h
  refine .after (takes_goes t r) rfl id ?_
  intro _ hactive hempty
  have hl : World.Begun r.upstream r.upstreamLen _ v := World.proxyBegin_linked hv
  refine ⟨withWorld_goes hl hactive _, hactive, fun _ => ⟨?_, hempty.2⟩⟩
  exact (World.client_get HttpConn.fileFd hl.1).trans hempty.1

theorem routeBegin_leads {site : Site} {fuel : Nat} {res : HttpIo × Turn}
    (hparsed : httpParseRequest t.hc.buf = .ok t.hc.req)
    (h : t.routeBegin site fuel now = some res) : Leads j t res := by
  unfold routeBegin at h
  extract_lets routed src t₁ static loc path at h
  have hnote : Goes j t t₁ := by
    exact .same (fun hf => ⟨hf.cache, hf.fresh, hf.closed⟩) ⟨rfl, rfl⟩ rfl (fun _ => rfl) rfl rfl rfl
  have hstatic : Leads j t₁ (static ()) :=
    staticServe_leads now _ _ _ _ _ hparsed (cr_not_mem_requestPath hparsed)
  refine .after hnote rfl id ?_
  split at h
  · rw [← Option.some.inj h]
    exact hstatic
  split at h
  · rw [← Option.some.inj h]
    exact fun _ hactive _ => ⟨armClose_goes now t₁ _ _, hactive, nofun⟩
  split at h
  · split at h
    · rw [← Option.some.inj h]
      intro hfit hactive hempty
      exact armed_leads now (Handler.staticBeginFile_steps t₁.toHandler now _ hempty.1)
        (Handler.staticBeginFile_armed t₁.toHandler now _) hfit hactive hempty
    split at h
    · rw [← Option.some.inj h]
      exact hstatic
    · rw [← Option.some.inj h]
      exact serveMount_leads now site _ hparsed (cr_not_mem_requestPath hparsed)
  · exact proxyBegin_leads now h
  · rw [← Option.some.inj h]
    exact fun _ hactive _ => ⟨armClose_goes now t₁ _ _, hactive, nofun⟩
  · rw [← Option.some.inj h]
    exact fun _ hactive _ => ⟨armClose_goes now t₁ _ _, hactive, nofun⟩

/-! ## Parsing -/

theorem dispatchParsed_leads {site : Site} {fuel : Nat} {result : Except ParseError HttpRequest}
    {res : HttpIo × Turn} (hparsed : httpParseRequest t.hc.buf = result)
    (h : t.dispatchParsed site fuel result now = some res) : Leads j t res := by
  unfold dispatchParsed at h
  cases result with
  | error e =>
      cases e with
      | bad =>
          rw [← Option.some.inj h]
          exact armClose_leads now t _ _
      | incomplete | unsupported =>
          rw [← Option.some.inj h]
          exact armClose_leads now t _ _
  | ok req =>
      simp only at h
      have hreq : Goes j t { t with hc := { t.hc with req := req } } :=
        hc_goes t _ rfl rfl rfl id
      refine .after hreq rfl id ?_
      split at h
      · rw [← Option.some.inj h]
        exact armClose_leads now _ _ _
      split at h
      · cases h
      · rename_i io t' hroute
        have hleads : Leads j _ _ := routeBegin_leads now hparsed hroute
        split at h
        · rename_i hwrite
          rw [← Option.some.inj h]
          intro hfit hactive hempty
          obtain ⟨hgoes, hactive', -⟩ := hleads hfit hactive hempty
          have hsend : Goes j t' (t'.onWrite now).2 := onWrite_goes now hactive'
          refine ⟨hgoes.trans hsend, hactive', fun hio => ?_⟩
          exact absurd hio (t'.toHandler.httpConnOnWrite_phase now hwrite.2).2
        · rw [← Option.some.inj h]
          exact hleads

theorem refuseHead_leads (t : Turn) : Leads j t (t.refuseHead now) := by
  unfold refuseHead
  by_cases hup : t.px.fd.isSome = true
  · rw [if_pos hup]
    exact armClose_leads now t _ _
  · rw [if_neg hup]
    exact .after (settle_goes t) rfl id (armClose_leads now t.settle _ _)

theorem tryParseBuffer_leads {site : Site} {fuel : Nat} {res : HttpIo × Turn}
    (h : t.tryParseBuffer site fuel now = some res) : Leads j t res := by
  unfold tryParseBuffer at h
  split at h
  · rw [← Option.some.inj h]
    exact .stay t _
  split at h
  · split at h
    · rw [← Option.some.inj h]
      exact refuseHead_leads now t
    · rw [← Option.some.inj h]
      exact .stay t _
  · exact .after (settle_goes t) rfl id (dispatchParsed_leads now rfl h)

/-- The client sends bytes. -/
theorem read_goes (t : Turn) (room : Nat) :
    Goes j t { t with kernel := (t.kernel.read .client room).2 } := by
  have hbonds := read_bonds t.kernel .client room
  have hcalls : (t.kernel.read .client room).2.wire.calls = t.kernel.wire.calls :=
    congrArg Prod.fst hbonds
  refine .same (fun hf => ⟨hf.cache, hf.fresh, hf.closed⟩) ⟨rfl, rfl⟩ ?_ (fun d => ?_) rfl rfl rfl
  · show t.calls ++ (t.kernel.read .client room).2.wire.calls = _
    rw [hcalls]
    rfl
  · rfl

theorem readLoop_leads {site : Site} {fuel : Nat} (n : Nat) : ∀ {t : Turn} {res : HttpIo × Turn},
    readLoop site fuel now n t = some res → Leads j t res := by
  induction n with
  | zero => exact fun h => by cases h
  | succ n ih =>
      intro t res h
      rw [readLoop] at h
      split at h
      · rw [← Option.some.inj h]
        exact refuseHead_leads now t
      extract_lets r t₁ at h
      have hread : Goes j t t₁ := read_goes t _
      refine .after hread rfl id ?_
      split at h
      · exact ih h
      · rw [← Option.some.inj h]
        exact .stay t₁ _
      · rw [← Option.some.inj h]
        exact .stay t₁ _
      · rw [← Option.some.inj h]
        exact .stay t₁ _
      · extract_lets t₂ at h
        have hbuf : Goes j t₁ t₂ := hc_goes t₁ _ rfl rfl rfl id
        refine .after hbuf rfl id ?_
        split at h
        · cases h
        · rename_i io t₃ hparse
          have hleads : Leads j _ _ := tryParseBuffer_leads now hparse
          split at h
          · rename_i hio
            intro hfit hactive hempty
            obtain ⟨hgoes, hactive', hempty'⟩ := hleads hfit hactive hempty
            obtain ⟨hgoes', hlast⟩ := ih h (hgoes hfit).1 hactive' (hempty' hio)
            exact ⟨hgoes.trans hgoes', hlast⟩
          · rw [← Option.some.inj h]
            exact hleads

/-- `http_conn_on_read`. -/
theorem httpConnOnRead_goes {site : Site} {fuel : Nat} {res : HttpIo × Turn} (hfit : t.Fit)
    (hactive : t.active = true) (h : t.httpConnOnRead site fuel now = some res) :
    Goes j t res.2 ∧ res.2.active = true := by
  unfold httpConnOnRead at h
  split at h
  · rw [← Option.some.inj h]
    exact ⟨.refl t, hactive⟩
  rename_i hphase
  have hempty : t.Empty := hfit.fresh (not_not.1 hphase)
  split at h
  · rw [← Option.some.inj h]
    exact ⟨.refl t, hactive⟩
  split at h
  · split at h
    · cases h
    · rename_i io t₁ hparse
      obtain ⟨hgoes, hactive', hempty'⟩ := tryParseBuffer_leads now hparse hfit hactive hempty
      split at h
      · rename_i hio
        obtain ⟨hgoes', hactive₂, -⟩ := readLoop_leads now _ h (hgoes hfit).1 hactive' (hempty' hio)
        exact ⟨hgoes.trans hgoes', hactive₂⟩
      · rw [← Option.some.inj h]
        exact ⟨hgoes, hactive'⟩
  · obtain ⟨hgoes, hactive', -⟩ := readLoop_leads now _ h hfit hactive hempty
    exact ⟨hgoes, hactive'⟩

/-! ## The next request -/

theorem httpConnCleanup_hc (h : Handler) : h.httpConnCleanup.hc.fileFd = none ∧
    h.httpConnCleanup.hc.phase = h.hc.phase ∧ h.httpConnCleanup.arena = h.arena := by
  have hphase : h.releaseFile.hc.phase = h.hc.phase := by rw [Handler.releaseFile_hc]
  have harena : h.releaseFile.arena = h.arena := Handler.releaseFile_arena h
  unfold Handler.httpConnCleanup
  extract_lets h₁ src h₂
  split
  · exact ⟨rfl, hphase, harena⟩
  · split
    · exact ⟨rfl, hphase, harena⟩
    · exact ⟨rfl, hphase, harena⟩

theorem cleanup_goes (t : Turn) : Goes j t (t.withHandler t.toHandler.httpConnCleanup) := by
  obtain ⟨hfile, hphase, harena⟩ := httpConnCleanup_hc t.toHandler
  refine withHandler_goes (Handler.httpConnCleanup_steps t.toHandler) (fun hread => ?_) (Or.inr hfile)
  exact ⟨hphase.symm.trans hread, fun _ => hfile, fun hzero => harena.trans hzero⟩

theorem nextRequest_goes (t : Turn) : Goes j t (t.nextRequest now) := by
  obtain ⟨hfile, -, -⟩ := httpConnCleanup_hc t.toHandler
  refine (cleanup_goes t).trans (.same (fun hf => ⟨hf.cache, fun _ => ⟨rfl, rfl⟩, fun hclosed => ?_⟩)
    ⟨rfl, rfl⟩ rfl (fun d => ?_) rfl rfl rfl)
  · exact ⟨rfl, (hf.closed hclosed).2⟩
  · exact on_noFile j _ none rfl hfile rfl

theorem httpConnReuse_goes {site : Site} {fuel : Nat} {res : HttpIo × Turn} (hfit : t.Fit)
    (hactive : t.active = true) (h : t.httpConnReuse site fuel now = some res) :
    Goes j t res.2 ∧ res.2.active = true := by
  unfold httpConnReuse at h
  extract_lets answer src t₁ at h
  have hnote : Goes j t t₁ :=
    .same (fun hf => ⟨hf.cache, hf.fresh, hf.closed⟩) ⟨rfl, rfl⟩ rfl (fun _ => rfl) rfl rfl rfl
  split at h
  · rw [← Option.some.inj h]
    exact ⟨hnote, hactive⟩
  · have hnext := hnote.trans (nextRequest_goes now t₁)
    obtain ⟨hgoes, hlast, -⟩ := tryParseBuffer_leads now h (hnext hfit).1 hactive ⟨rfl, rfl⟩
    exact ⟨hnext.trans hgoes, hlast⟩

end Requests

/-! ## Events -/

section Events

variable {j : Nat} {t : Turn} {now : Nat}

/-- A call that brings and ends no descriptor. -/
theorem quiet_goes (t : Turn) {k : Kernel} {c : ControlCall} (hc : c.Quiet)
    (hdial : c.dials = false) (hk : k.wire.calls = t.kernel.wire.calls ++ [c]) :
    Goes j t { t with kernel := k } := by
  have hlog : ({ t with kernel := k } : Turn).log = t.log ++ [c] := by
    show t.calls ++ k.wire.calls = _
    rw [hk]
    exact (List.append_assoc _ _ _).symm
  intro hfit
  refine ⟨⟨hfit.cache, hfit.fresh, hfit.closed⟩, Or.inl ⟨rfl, rfl⟩, [c], hlog, fun d _ => ?_, ?_⟩
  · have hm : PlaceMove j (t.ledger j d) [c] (t.ledger j d) := .quiet _ c hc
    exact hm.moves
  · intro n d _ _ _ _ _
    refine .still j d hlog (fun c' hc' => ?_) rfl rfl rfl
    rw [List.mem_singleton.1 hc']
    exact hdial

/-- The slot as `slot_close` leaves it. -/
def shut (t : Turn) (j : Nat) : Turn :=
  { t with
    active := false
    armedIo := .done
    freeStack := j :: t.freeStack
    nactive := t.nactive - 1 }

theorem ledger_client (t : Turn) (j : Nat) (d : Holding Place) :
    (t.ledger j d).place (.slot j .client) = t.clientFd.map fun fd => (fd, 0) :=
  put_place_self _ _ _

/-- A handler does not touch the socket of the client. -/
theorem on_putClient (h : Handler) (j : Nat) (d : Holding Place) (v : Option (Nat × Nat)) :
    h.on j (d.put (.slot j .client) v) none = (h.on j d none).put (.slot j .client) v := by
  refine eq_of (fun p => ?_) (fun _ => rfl) rfl
  by_cases hp : p = .slot j .client
  · rw [hp, put_place_self]
    exact put_place_self _ _ _
  · rw [put_place_ne _ _ hp]
    have hother : (d.put (.slot j .client) v).place p = d.place p := put_place_ne _ _ hp
    cases p with
    | cached | retired => rfl
    | idle n => exact hother
    | slot k part =>
        cases part with
        | client | upstream => exact hother
        | own | opened =>
            by_cases hk : k = j
            · exact (if_pos hk).trans (if_pos hk).symm
            · exact (if_neg hk).trans (hother.trans (if_neg hk).symm)

/-- Only the socket of the client changes. -/
theorem ledger_setClient (t t' : Turn) (j : Nat) (d : Holding Place) (hcache : t'.cache = t.cache)
    (hfile : t'.hc.fileFd = t.hc.fileFd) (howned : t'.hc.fileOwned = t.hc.fileOwned)
    (hfd : t'.px.fd = t.px.fd) (hpool : t'.pool = t.pool) :
    t'.ledger j d =
      (t.ledger j d).put (.slot j .client) (t'.clientFd.map fun fd => (fd, 0)) := by
  unfold ledger sockets
  rw [link_congr d j t.link (m := t'.link) hfd hpool, ← on_putClient, put_put]
  refine on_congr j _ none ?_ ?_ ?_ hfile howned
  · rw [hcache]
  · rw [hcache]
  · rw [hcache]

/-- The socket of the client is closed with its slot. -/
theorem closeClient_goes {fd : Nat} (hactive : t.active = true)
    (hfd : t.hc.fd = some fd) (hfile : t.hc.fileFd = none) (hup : t.px.fd = none) :
    Goes j t (shut { t with kernel := t.kernel.close fd, hc := { t.hc with fd := none } } j) := by
  have hlog : (shut { t with kernel := t.kernel.close fd, hc := { t.hc with fd := none } } j).log =
      t.log ++ [.close fd] := (List.append_assoc _ _ _).symm
  intro hfit
  refine ⟨⟨hfit.cache, hfit.fresh, fun _ => ⟨hfile, hup⟩⟩, Or.inr ⟨hactive, rfl, rfl⟩, [.close fd],
    hlog, fun d _ => ?_, ?_⟩
  · have hplace : (t.ledger j d).place (.slot j .client) = some (fd, 0) := by
      rw [ledger_client]
      unfold clientFd
      rw [hactive, if_pos rfl, hfd]
      rfl
    have hm : PlaceMove j (t.ledger j d) _ _ := .close _ (.slot j .client) fd hplace
    have hclient := ledger_setClient t
      (shut { t with kernel := t.kernel.close fd, hc := { t.hc with fd := none } } j) j d rfl rfl
      rfl rfl rfl
    rw [hclient]
    exact hm.moves
  · intro n d _ _ _ _ _
    refine .still j d hlog (fun c hc => ?_) rfl rfl rfl
    rw [List.mem_singleton.1 hc]
    rfl

/-- A slot whose client has no socket is closed. -/
theorem shut_goes (hactive : t.active = true) (hfd : t.hc.fd = none) (hfile : t.hc.fileFd = none)
    (hup : t.px.fd = none) : Goes j t (shut t j) := by
  intro hfit
  refine ⟨⟨hfit.cache, hfit.fresh, fun _ => ⟨hfile, hup⟩⟩, Or.inr ⟨hactive, rfl, rfl⟩, [],
    (List.append_nil _).symm, fun d _ => ?_, ?_⟩
  · have hsame : (shut t j).ledger j d = t.ledger j d := by
      rw [ledger_setClient t (shut t j) j d rfl rfl rfl rfl rfl]
      apply put_same
      rw [ledger_client]
      unfold clientFd shut
      rw [hfd, ite_self, ite_self]
    rw [hsame]
    exact .refl _
  · intro n d _ _ _ _ _
    have hlog : (shut t j).log = t.log ++ [] := (List.append_nil _).symm
    exact .still j d hlog nofun rfl rfl rfl

theorem slotClose_goes (t : Turn) (j : Nat) : Goes j t (slotClose j t) := by
  unfold slotClose
  by_cases hactive : t.active = true
  · rw [if_neg (by rw [hactive]; rintro ⟨⟩)]
    extract_lets src t₁ t₂ hc t₃
    have hlinked : World.Begun [] 0 t.world t.world.proxyClose :=
      .of_linked (World.proxyClose_linked t.world)
    have hclose : Goes j t t₁ := withWorld_goes hlinked hactive false
    have hclean : Goes j t t₂ := hclose.trans (cleanup_goes t₁)
    have hfile : t₂.hc.fileFd = none := (httpConnCleanup_hc t₁.toHandler).1
    have hup : t₂.px.fd = none := World.proxyClose_fd t.world
    refine hclean.trans ?_
    show Goes j t₂ (shut t₃ j)
    cases hfd : t₂.hc.fd with
    | none =>
        have ht₃ : t₃ = t₂ := by
          dsimp only [t₃, hc]
          rw [hfd]
        rw [ht₃]
        exact shut_goes hactive hfd hfile hup
    | some fd =>
        have ht₃ : t₃ = { t₂ with
            kernel := (t₂.kernel.epollCtl fd .del).2.close fd, hc := { t₂.hc with fd := none } } := by
          dsimp only [t₃, hc]
          rw [hfd]
        rw [ht₃]
        have hquiet : Goes j t₂ { t₂ with kernel := (t₂.kernel.epollCtl fd .del).2 } :=
          quiet_goes t₂ (c := .epollCtl fd .del _) ⟨rfl, by rintro _ ⟨⟩⟩ rfl rfl
        refine hquiet.trans ?_
        exact closeClient_goes (t := { t₂ with kernel := (t₂.kernel.epollCtl fd .del).2 })
          hactive hfd hfile hup
  · rw [if_pos (by rw [Bool.not_eq_true] at hactive; rw [hactive]; rfl)]
    exact .refl t

theorem armEvents_goes (t : Turn) (j : Nat) (io : HttpIo) : Goes j t (armEvents j io t) := by
  unfold armEvents
  split
  · exact .refl t
  split
  · rename_i interest fd hinterest hfd
    extract_lets r
    have hquiet : Goes j t { t with kernel := r.2 } :=
      quiet_goes t (c := .epollCtl fd (.mod interest) _) ⟨rfl, nofun⟩ rfl rfl
    split
    · exact hquiet.trans (.same (fun hf => ⟨hf.cache, hf.fresh, hf.closed⟩) ⟨rfl, rfl⟩ rfl
        (fun _ => rfl) rfl rfl rfl)
    · exact hquiet.trans (slotClose_goes _ j)
  · exact slotClose_goes t j

theorem doneLoop_goes {site : Site} {fuel : Nat} (n : Nat) : ∀ {io : HttpIo} {t : Turn}
    {res : HttpIo × Turn}, t.Fit → t.active = true → doneLoop site fuel now n io t = some res →
      Goes j t res.2 ∧ res.2.active = true := by
  induction n with
  | zero =>
      intro io t res hfit hactive h
      cases io with
      | done => cases h
      | wantRead | wantWrite | close | idle =>
          rw [← Option.some.inj h]
          exact ⟨.refl t, hactive⟩
  | succ n ih =>
      intro io t res hfit hactive h
      cases io with
      | done =>
          rw [doneLoop] at h
          split at h
          · cases h
          · rename_i io' t₁ hreuse
            obtain ⟨hgoes, hactive'⟩ := httpConnReuse_goes now hfit hactive hreuse
            obtain ⟨hgoes', hlast⟩ := ih (hgoes hfit).1 hactive' h
            exact ⟨hgoes.trans hgoes', hlast⟩
      | wantRead | wantWrite | close | idle =>
          rw [← Option.some.inj h]
          exact ⟨.refl t, hactive⟩

theorem applyIo_goes {site : Site} {fuel : Nat} {io : HttpIo} {t' : Turn} (hfit : t.Fit)
    (hactive : t.active = true) (h : applyIo site fuel now j io t = some t') : Goes j t t' := by
  obtain ⟨r, hr, rfl⟩ := Option.map_eq_some_iff.1 h
  obtain ⟨hgoes, -⟩ := doneLoop_goes _ hfit hactive hr
  split
  · exact hgoes.trans (slotClose_goes r.2 j)
  split
  · exact hgoes
  · exact hgoes.trans (armEvents_goes r.2 j r.1)

theorem pump_goes {fuel : Nat} {res : HttpIo × Turn} (hactive : t.active = true)
    (h : pump fuel now t = some res) : Goes j t res.2 ∧ res.2.active = true := by
  obtain ⟨⟨io, v⟩, hv, rfl⟩ := Option.map_eq_some_iff.1 h
  have hl : World.Begun [] 0 t.world v := .of_linked (World.proxyPump_linked hv)
  exact ⟨withWorld_goes hl hactive _, hactive⟩

/-- The body of the event loop. -/
theorem onEvent_goes {site : Site} {fuel : Nat} {ev : Event} {t' : Turn} (hfit : t.Fit)
    (hactive : t.active = true) (h : onEvent site fuel now ev t = some t') : Goes ev.idx t t' := by
  unfold onEvent at h
  split at h
  · split at h
    · rw [← Option.some.inj h]
      exact slotClose_goes t _
    split at h
    · cases h
    · rename_i io t₁ hpump
      obtain ⟨hgoes, hactive'⟩ := pump_goes hactive hpump
      exact hgoes.trans (applyIo_goes (hgoes hfit).1 hactive' h)
  split at h
  · rw [← Option.some.inj h]
    exact slotClose_goes t _
  split at h
  · cases h
  · rename_i t₁ hread
    have hfirst : Goes ev.idx t t₁ := by
      unfold onReadEvent at hread
      split at hread
      · split at hread
        · cases hread
        · rename_i io t₂ hconn
          obtain ⟨hgoes, hactive'⟩ := httpConnOnRead_goes now hfit hactive hconn
          exact hgoes.trans (applyIo_goes (hgoes hfit).1 hactive' hread)
      · rw [← Option.some.inj hread]
        exact .refl t
    split at h
    · rw [← Option.some.inj h]
      exact hfirst
    · rename_i hopen
      have hactive' : t₁.active = true := by simpa using hopen
      unfold onWriteEvent at h
      split at h
      · have hsend : Goes ev.idx t₁ (t₁.onWrite now).2 := onWrite_goes now hactive'
        exact (hfirst.trans hsend).trans
          (applyIo_goes (hsend (hfirst hfit).1).1 hactive' h)
      · rw [← Option.some.inj h]
        exact hfirst

end Events

end Turn

end TinyServer.Serve
