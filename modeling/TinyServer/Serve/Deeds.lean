import TinyServer.Serve.Stance

/-!
# What an act does with sockets

Most acts of a handler leave the upstream socket and the idle pool alone (`Aloof`). The
others are few: an exchange starts or goes on, the slot is closed, or its events change
(`Deed`).
-/

set_option autoImplicit false

namespace TinyServer.Serve

open TinyServer.Http TinyServer.Net TinyServer.Proxy TinyServer.Static TinyServer.Routing

namespace Turn

section Aloof

variable {t t' t'' : Turn}

/-- The sockets of the slot and of the pool stay as they are, and all calls are about
files. -/
structure Aloof (t t' : Turn) : Prop where
  px : t'.px = t.px
  pool : t'.pool = t.pool
  active : t'.active = t.active
  armed : t'.armedIo = t.armedIo
  fd : t'.hc.fd = t.hc.fd
  log : ∃ cs, t'.log = t.log ++ cs ∧ ∀ c ∈ cs, c.files = true

theorem Aloof.trans (h : Aloof t t') (h' : Aloof t' t'') : Aloof t t'' := by
  obtain ⟨cs, hlog, hfiles⟩ := h.log
  obtain ⟨cs', hlog', hfiles'⟩ := h'.log
  refine ⟨h'.px.trans h.px, h'.pool.trans h.pool, h'.active.trans h.active, h'.armed.trans h.armed,
    h'.fd.trans h.fd, cs ++ cs', ?_, fun c hc => ?_⟩
  · rw [hlog', hlog, List.append_assoc]
  · rcases List.mem_append.1 hc with hc | hc
    · exact hfiles c hc
    · exact hfiles' c hc

/-- There is no call at all. -/
theorem Aloof.still (hpx : t'.px = t.px) (hpool : t'.pool = t.pool) (hactive : t'.active = t.active)
    (harmed : t'.armedIo = t.armedIo) (hfd : t'.hc.fd = t.hc.fd) (hlog : t'.log = t.log) :
    Aloof t t' :=
  ⟨hpx, hpool, hactive, harmed, hfd, [], by rw [hlog, List.append_nil], nofun⟩

theorem Aloof.refl (t : Turn) : Aloof t t := .still rfl rfl rfl rfl rfl rfl

theorem Steps.aloof {h : Handler} (hs : Steps t.toHandler none h none) (hfit : t.Fit) :
    Aloof t (t.withHandler h) := by
  obtain ⟨hfd, -, cs, hcalls, hfiles, -⟩ := hs hfit.cache
  refine ⟨rfl, rfl, rfl, rfl, hfd, cs, ?_, hfiles⟩
  show t.calls ++ h.kernel.wire.calls = t.calls ++ t.kernel.wire.calls ++ cs
  rw [hcalls, List.append_assoc]

end Aloof

/-- The record of a request for which `route_begin` starts an exchange. -/
def asking (t : Turn) (r : Route) : Turn :=
  { t.routed with trail := { t.routed.trail with
    takes := t.routed.trail.takes ++ t.routed.takes r } }

end Turn

section Deeds

variable {site : Site} {fuel now idx : Nat} {p q : Point} {t t' : Turn}

theorem settle_aloof (t : Turn) : t.Aloof t.settle :=
  .still rfl rfl rfl rfl rfl (List.append_nil _)

theorem refused_aloof (now : Nat) (t : Turn) : t.Aloof (t.refused now) := by
  unfold Turn.refused
  split
  · exact .still rfl rfl rfl rfl rfl rfl
  · exact (settle_aloof t).trans (.still rfl rfl rfl rfl rfl rfl)

theorem afterRead_aloof (t : Turn) : t.Aloof t.afterRead.2 := by
  refine .still rfl rfl rfl rfl rfl ?_
  have hcalls := congrArg Prod.fst (read_bonds t.kernel .client (t.hc.headerCap - t.hc.used))
  exact congrArg (t.calls ++ ·) hcalls

/-- The responses that `route_begin` makes itself. -/
theorem reply_aloof (h : Reply site now t t') (hfit : t.Fit) (hempty : t.Empty) : t.Aloof t' := by
  have hserve : ∀ allowDotfiles dirFd useCache url urlLen redir, t.Aloof (t.withHandler
      (t.toHandler.staticServe allowDotfiles dirFd useCache url urlLen redir now)) :=
    fun allowDotfiles dirFd useCache url urlLen redir =>
      Turn.Steps.aloof (Handler.staticServe_steps t.toHandler now allowDotfiles dirFd useCache url
        urlLen redir hempty.1 hempty.2) hfit
  have hfixed : ∀ resp status, t.Aloof (t.armClose resp status now) :=
    fun _ _ => .still rfl rfl rfl rfl rfl rfl
  cases h with
  | docroot => exact hserve ..
  | file r => exact Turn.Steps.aloof (Handler.staticBeginFile_steps t.toHandler now _ hempty.1) hfit
  | mount r =>
      unfold Turn.serveMount
      extract_lets cut loc
      split
      · exact hserve ..
      split
      · exact hfixed ..
      · exact hserve ..
  | fixed resp status => exact hfixed resp status

theorem nextRequest_aloof (now : Nat) (t : Turn) (hfit : t.Fit) : t.Aloof (t.nextRequest now) := by
  have hclean := Turn.Steps.aloof (Handler.httpConnCleanup_steps t.toHandler) hfit
  exact hclean.trans (.still rfl rfl rfl rfl rfl rfl)

/-- What an act of the slot `idx` does with sockets. -/
inductive Deed (site : Site) (idx : Nat) (p : Point) (t : Turn) : Turn → Prop
  | aloof (t' : Turn) (h : t.Aloof t') : Deed site idx p t t'
  | close : Deed site idx p t (t.slotClose idx)
  | arm (io : HttpIo) (hactive : t.active = true) : Deed site idx p t (t.armEvents idx io)
  | pump (v : World) (proxying : Bool) (hactive : t.active = true)
      (hl : Linked true t.world true v) :
      Deed site idx p t { t.withWorld v with proxying := proxying }
  | proxy (loop : Bool) (r : Route) (v : World) (proxying : Bool) (hp : p = .routing loop)
      (hactive : t.active = true) (hroute : t.route site = some r) (htype : r.type = .proxy)
      (hl : World.Begun r.upstream r.upstreamLen t.world v) :
      Deed site idx p t { (t.asking r).withWorld v with proxying := proxying }

/-- Every act on a slot is one of the deeds. -/
theorem Act.deed (h : Act site fuel now idx (p, t) (q, t')) (hs : Stance p t) :
    Deed site idx p t t' := by
  cases h with
  | hangUp => exact .close
  | close => exact .close
  | arm _ io hio hactive => exact .arm io hactive
  | pump _ _ io hactive h =>
      obtain ⟨⟨io', v⟩, hv, hr⟩ := Option.map_eq_some_iff.1 h
      cases hr
      exact .pump v _ hactive (World.proxyPump_linked hv)
  | proxy _ _ io r loop hparsed hmethod hroute htype h =>
      obtain ⟨⟨io', v⟩, hv, hr⟩ := Option.map_eq_some_iff.1 h
      cases hr
      exact .proxy loop r v _ rfl (hs.active nofun) hroute htype (World.proxyBegin_linked hv)
  | reply _ _ loop hparsed hmethod h =>
      have hnote : t.Aloof t.routed := .still rfl rfl rfl rfl rfl rfl
      have hgoes : Turn.Goes idx t t.routed := routed_goes t
      exact .aloof _ (hnote.trans (reply_aloof h (hgoes hs.fit).1 (hs.empty rfl)))
  | write _ loop =>
      exact .aloof _ (Turn.Steps.aloof (Handler.httpConnOnWrite_steps t.toHandler now) hs.fit)
  | next hcont =>
      have hnote : t.Aloof t.answered := .still rfl rfl rfl rfl rfl rfl
      have hgoes : Turn.Goes idx t t.answered := answered_goes t
      exact .aloof _ (hnote.trans (nextRequest_aloof now t.answered (hgoes hs.fit).1))
  | full | overlong => exact .aloof _ (refused_aloof now t)
  | again | wait | ended => exact .aloof _ (afterRead_aloof t)
  | receive => exact .aloof _ ((afterRead_aloof t).trans (.still rfl rfl rfl rfl rfl rfl))
  | bad | unsupported | parse =>
      exact .aloof _ ((settle_aloof t).trans (.still rfl rfl rfl rfl rfl rfl))
  | unknown | finish => exact .aloof _ (.still rfl rfl rfl rfl rfl rfl)
  | send | late | resume | start | empty | partialHead | deliver | return_ | gone =>
      exact .aloof _ (.refl t)

/-! ## What stays of a request -/

/-- The request and its bytes stay as they are. -/
structure Turn.Kept (t t' : Turn) : Prop where
  buf : t'.hc.buf = t.hc.buf
  headerCap : t'.hc.headerCap = t.hc.headerCap
  req : t'.hc.req = t.hc.req

theorem Turn.Kept.refl (t : Turn) : t.Kept t := ⟨rfl, rfl, rfl⟩

theorem Turn.Kept.trans {t'' : Turn} (h : t.Kept t') (h' : t'.Kept t'') : t.Kept t'' :=
  ⟨h'.buf.trans h.buf, h'.headerCap.trans h.headerCap, h'.req.trans h.req⟩

/-- The functions of the proxy. -/
theorem withWorld_kept {v : World} (h : v.client = t.world.client) (proxying : Bool) :
    t.Kept { t.withWorld v with proxying := proxying } :=
  ⟨World.client_get HttpConn.buf h, World.client_get HttpConn.headerCap h,
    World.client_get HttpConn.req h⟩

/-- A field of the connection that sending leaves alone. -/
theorem onWrite_get {α : Type} (f : HttpConn → α) (now : Nat) (t : Turn) :
    f (Handler.lasting (t.onWrite now).2.hc) = f (Handler.lasting t.hc) :=
  congrArg f (t.toHandler.httpConnOnWrite_lasting now)

theorem onWrite_kept (now : Nat) (t : Turn) : t.Kept (t.onWrite now).2 :=
  ⟨onWrite_get HttpConn.buf now t, onWrite_get HttpConn.headerCap now t,
    onWrite_get HttpConn.req now t⟩

/-- `slot_close` makes no response but one of the proxy. -/
theorem slotClose_kept (idx : Nat) (t : Turn) :
    t.Kept (t.slotClose idx) ∧ t.world.Replies (t.slotClose idx).world := by
  cases hactive : t.active with
  | false =>
      have hsame : t.slotClose idx = t := by
        unfold Turn.slotClose
        rw [hactive]
        rfl
      rw [hsame]
      exact ⟨.refl t, .inl rfl⟩
  | true =>
      obtain ⟨hclient, hreply, -⟩ := World.proxyClose_linked (b := true) t.world
      unfold Turn.slotClose
      rw [if_neg (by rw [hactive]; exact nofun)]
      extract_lets src t₁ t₂ hc t₃
      have hkept : t.Kept t₁ := withWorld_kept hclient false
      obtain ⟨corkOn, hconn⟩ := t₁.toHandler.httpConnCleanup_conn
      have hconn : t₂.hc = { t₁.hc with fileFd := none, fileOwned := true, corkOn := corkOn } := hconn
      have hlast : t₃.hc.buf = t₂.hc.buf ∧ t₃.hc.headerCap = t₂.hc.headerCap ∧
          t₃.hc.req = t₂.hc.req ∧ t₃.world.reply = t₂.world.reply := by
        unfold t₃
        split
        · exact ⟨rfl, rfl, rfl, rfl⟩
        · exact ⟨rfl, rfl, rfl, rfl⟩
      obtain ⟨hbuf, hcap, hreq, hfixed⟩ := hlast
      have hsame : t₂.world.reply = t₁.world.reply := by
        unfold World.reply
        rw [show t₂.world.hc = _ from hconn]
        rfl
      refine ⟨hkept.trans ⟨?_, ?_, ?_⟩, ?_⟩
      · exact hbuf.trans (by rw [hconn])
      · exact hcap.trans (by rw [hconn])
      · exact hreq.trans (by rw [hconn])
      · have hreply₁ : t.world.Replies t₁.world := hreply
        exact hreply₁.trans (.inl (hfixed.trans hsame))

theorem armEvents_kept (idx : Nat) (io : HttpIo) (t : Turn) :
    t.Kept (t.armEvents idx io) ∧ t.world.Replies (t.armEvents idx io).world := by
  unfold Turn.armEvents
  split
  · exact ⟨.refl t, .inl rfl⟩
  split
  · extract_lets r
    split
    · exact ⟨⟨rfl, rfl, rfl⟩, .inl rfl⟩
    · obtain ⟨⟨hbuf, hcap, hreq⟩, hreply⟩ := slotClose_kept idx { t with kernel := r.2 }
      exact ⟨⟨hbuf, hcap, hreq⟩, hreply⟩
  · exact slotClose_kept idx t

/-- The responses that `route_begin` makes itself. -/
theorem reply_armed (hparsed : httpParseRequest t.hc.buf = .ok t.hc.req) (h : Reply site now t t')
    (hfit : t.Fit) (hempty : t.Empty) : Armed now t.toHandler t'.toHandler ∨
      ∃ resp status, (resp, status) ∈ [(RESP_404, 404), (RESP_500, 500), (RESP_501, 501)] ∧
        t' = t.armClose resp status now := by
  have hserve : ∀ allowDotfiles dirFd useCache url urlLen redir, CR ∉ redir →
      Armed now t.toHandler (t.withHandler (t.toHandler.staticServe allowDotfiles dirFd useCache url
        urlLen redir now)).toHandler :=
    fun allowDotfiles dirFd useCache url urlLen redir hredir =>
      t.toHandler.staticServe_armed now allowDotfiles dirFd useCache url urlLen hempty.1 hempty.2
        hfit.cache hredir (Turn.cr_not_mem_query hparsed)
  have hpath := Turn.cr_not_mem_requestPath hparsed
  cases h with
  | docroot => exact Or.inl (hserve _ _ _ _ _ _ hpath)
  | file r => exact Or.inl (t.toHandler.staticBeginFile_armed now _)
  | mount r =>
      unfold Turn.serveMount
      extract_lets cut loc
      split
      · exact Or.inl (hserve _ _ _ _ _ _ hpath)
      split
      · exact Or.inr ⟨RESP_500, 500, by simp, rfl⟩
      · exact Or.inl (hserve _ _ _ _ _ _ hpath)
  | fixed resp status hresp => exact Or.inr ⟨resp, status, hresp, rfl⟩

end Deeds

end TinyServer.Serve
