import TinyServer.Proxy.Wired
import TinyServer.Serve.Deeds
import TinyServer.Serve.Stale
import TinyServer.Serve.Tends

/-!
# What a worker knows about epoll

A slot notes for what its client socket is registered (`armed_io`), and its proxy state
whether the upstream socket is (`in_epoll`, `armed`). `arm_events` and `arm_up` make no
call where the note says that none is needed. In every state that a worker reaches the
notes agree with the epoll instance (`reachable_registered`): each act of a handler keeps
those of its own slot right and touches no socket of another (`Wires`).
-/

set_option autoImplicit false

namespace TinyServer.Serve

open TinyServer.Http TinyServer.Net TinyServer.Proxy TinyServer.Static TinyServer.Routing
open TinyServer.Lib
open TinyServer.Net.Holding

namespace Turn

/-! ## One slot -/

/-- What the slot of a handler notes about registrations is so. -/
structure Wired (t : Turn) : Prop where
  kept : Proxy.Kept t.log t.link
  client : t.active = true → ∃ fd interest, t.hc.fd = some fd ∧
    interestOf t.armedIo = some interest ∧ registered t.log fd = some interest

/-- The sockets of the slots other than `j` stay registered as they are. -/
def Spares (j : Nat) (d : Holding Place) (t t' : Turn) : Prop :=
  ∀ k part fd m, k ≠ j → Place.kind (.slot k part) ≠ .file →
    d.place (.slot k part) = some (fd, m) → registered t'.log fd = registered t.log fd

/-- `t'` comes from `t` by moves of the slot `j`, and what the slot notes stays right. -/
structure Wires (j : Nat) (t t' : Turn) : Prop where
  goes : Goes j t t'
  keeps : ∀ n d, Plain d → j < n → n ≤ UINT16_MAX → t.Fit →
    Sound Place.kind n (openFds t.log) (t.ledger j d) → Promised t'.log → t.Wired →
      t'.Wired ∧ Spares j d t t'

section Wires

variable {j : Nat} {t t' t'' : Turn}

theorem Wires.trans (h : Wires j t t') (h' : Wires j t' t'') : Wires j t t'' := by
  refine ⟨h.goes.trans h'.goes, fun n d hd hj hn hfit hs hp hw => ?_⟩
  obtain ⟨hfit', -, cs, hlog, hm, -⟩ := h.goes hfit
  obtain ⟨-, -, cs', hlog', -, -⟩ := h'.goes hfit'
  have hp' : Promised t'.log := by
    rw [hlog'] at hp
    exact hp.append.1
  have hs' : Sound Place.kind n (openFds t'.log) (t'.ledger j d) := by
    have hfresh := hp'
    rw [hlog] at hfresh ⊢
    rw [openFds_append]
    exact (hm d hd).sound hj hn hs hfresh.append.2.1
  obtain ⟨hw', hspare⟩ := h.keeps n d hd hj hn hfit hs hp' hw
  obtain ⟨hw'', hspare'⟩ := h'.keeps n d hd hj hn hfit' hs' hp hw'
  refine ⟨hw'', fun k part fd m hk hpart hplace => ?_⟩
  exact (hspare' k part fd m hk hpart hplace).trans (hspare k part fd m hk hpart hplace)

theorem Wires.refl (t : Turn) : Wires j t t :=
  ⟨.refl t, fun _ _ _ _ _ _ _ _ hw => ⟨hw, fun _ _ _ _ _ _ _ => rfl⟩⟩

/-- The places of the other slots. -/
theorem ledger_other (t : Turn) (d : Holding Place) {k : Nat} (hk : k ≠ j) (part : Part) :
    (t.ledger j d).place (.slot k part) = d.place (.slot k part) := by
  cases part with
  | client =>
      have hne : Place.slot k .client ≠ .slot j .client := fun he => hk (by cases he; rfl)
      exact put_place_ne _ _ hne
  | upstream => exact (Worker.turnLedger_upstream t j d k).trans (if_neg hk)
  | own =>
      refine (if_neg hk).trans ?_
      exact put_place_ne _ _ nofun
  | opened =>
      refine (if_neg hk).trans ?_
      exact put_place_ne _ _ nofun

theorem ledger_idle (t : Turn) (d : Holding Place) (i : Nat) :
    (t.ledger j d).place (.idle i) = idlePlace t.pool i := by
  show (t.sockets j d t.link).place (.idle i) = _
  exact put_place_ne _ _ nofun

theorem ledger_upstream (t : Turn) (d : Holding Place) :
    (t.ledger j d).place (.slot j .upstream) = t.px.fd.map fun fd => (fd, 0) :=
  (Worker.turnLedger_upstream t j d j).trans (if_pos rfl)

theorem ledger_active (d : Holding Place) {fd : Nat} (hactive : t.active = true)
    (hfd : t.hc.fd = some fd) : (t.ledger j d).place (.slot j .client) = some (fd, 0) := by
  rw [ledger_client]
  unfold clientFd
  rw [hactive, if_pos rfl, hfd]
  rfl

theorem ledger_idle_mem (d : Holding Place) {e : ProxyIdle} (he : e ∈ t.pool) :
    ∃ i, (t.ledger j d).place (.idle i) = some (e.fd, 0) := by
  obtain ⟨i, hi⟩ := List.mem_iff_getElem?.1 he
  refine ⟨i, ?_⟩
  rw [ledger_idle]
  unfold idlePlace
  rw [hi]
  rfl

/-! ## Acts that leave the sockets alone -/

theorem Aloof.wires (hgoes : Goes j t t') (h : t.Fit → Aloof t t') : Wires j t t' := by
  refine ⟨hgoes, fun n d hd hj hn hfit hs hp hw => ?_⟩
  have ha := h hfit
  obtain ⟨cs, hlog, hfiles⟩ := ha.log
  obtain ⟨-, -, cs', hlog', hm, -⟩ := hgoes hfit
  have hcs : cs = cs' := List.append_cancel_left (hlog.symm.trans hlog')
  rw [← hcs] at hm
  rw [hlog] at hp
  have hs' := (hm d hd).sound hj hn hs hp.append.2.1
  -- A socket that is in its place afterwards was not touched.
  have huntouched : ∀ p fd m, Place.kind p ≠ .file → (t'.ledger j d).place p = some (fd, m) →
      registered t'.log fd = registered t.log fd := by
    intro p fd m hp hplace
    rw [hlog, registered_append]
    exact files_untouched hfiles hp (hs'.counted.isOpen p fd m hplace)
  refine ⟨⟨⟨?_, fun fd hfd => ?_, fun e he => ?_, fun hnone => ?_⟩, fun hactive => ?_⟩,
    fun k part fd m hk hpart hplace => ?_⟩
  · rw [hlog, registered_append, openFds_append]
    exact hw.kept.live.files hfiles
  · have hplace : (t'.ledger j d).place (.slot j .upstream) = some (fd, 0) := by
      rw [ledger_upstream, show t'.px.fd = some fd from hfd]
      rfl
    rw [huntouched (.slot j .upstream) fd 0 nofun hplace]
    have hup := hw.kept.wired.upstream fd
    show _ = if t'.px.inEpoll then some (upInterest t'.px.armed) else none
    rw [ha.px]
    exact hup (by
      rw [← hfd]
      exact congrArg ProxyConn.fd ha.px.symm)
  · have hmem : e ∈ t'.pool := he
    obtain ⟨i, hplace⟩ := ledger_idle_mem (j := j) d hmem
    rw [huntouched (.idle i) e.fd 0 nofun hplace]
    rw [ha.pool] at hmem
    exact hw.kept.wired.idle e hmem
  · have hout := hw.kept.wired.out
    show t'.px.inEpoll = false
    rw [ha.px]
    exact hout (by
      rw [← hnone]
      exact congrArg ProxyConn.fd ha.px.symm)
  · obtain ⟨fd, interest, hfd, harmed, hreg⟩ := hw.client (ha.active.symm.trans hactive)
    refine ⟨fd, interest, ha.fd.trans hfd, by rw [ha.armed]; exact harmed, ?_⟩
    rw [huntouched (.slot j .client) fd 0 nofun (ledger_active d hactive (ha.fd.trans hfd))]
    exact hreg
  · exact huntouched (.slot k part) fd m hpart ((ledger_other t' d hk part).trans hplace)

end Wires

/-! ## Acts on the sockets -/

section Sockets

variable {j : Nat} {t : Turn}

/-- The functions of the proxy. -/
theorem withWorld_wires {v : World} {addr : List UInt8} {len : Nat}
    (hl : World.Begun addr len t.world v) (hactive : t.active = true) (proxying : Bool) :
    Wires j t { t.withWorld v with proxying := proxying } := by
  refine ⟨withWorld_goes hl hactive proxying, fun n d hd hj hn hfit hs hp hw => ?_⟩
  obtain ⟨hclient, -, cs, hcalls, hpath⟩ := hl
  have hfd : v.hc.fd = t.hc.fd := World.client_get HttpConn.fd hclient
  have hlog : ({ t.withWorld v with proxying := proxying } : Turn).log = t.log ++ cs := by
    show t.calls ++ v.kernel.wire.calls = (t.calls ++ t.kernel.wire.calls) ++ cs
    rw [hcalls]
    exact (List.append_assoc _ _ _).symm
  rw [hlog] at hp
  obtain ⟨-, hfresh, hdels⟩ := hp.append
  have hs' := hs
  rw [← ledger_self] at hs'
  have huntouched : ∀ p fd m, p ≠ .slot j .upstream → (∀ i, p ≠ .idle i) →
      (t.ledger j d).place p = some (fd, m) →
        registered (t.log ++ cs) fd = registered t.log fd := by
    intro p fd m hp hidle hplace
    refine hpath.untouched hj hn hs' hfresh (k := m) hp fun l => ?_
    cases p with
    | idle i => exact absurd rfl (hidle i)
    | cached | retired => exact hplace
    | slot k part =>
        cases part with
        | upstream =>
            have hk : k ≠ j := fun he => hp (by rw [he])
            exact (if_neg hk).trans hplace
        | client | own | opened => exact hplace
  refine ⟨⟨?_, fun _ => ?_⟩, fun k part fd m hk hpart hplace => ?_⟩
  · rw [hlog]
    exact hpath.kept hj hn hs' hfresh hdels hw.kept
  · obtain ⟨fd, interest, hclient, harmed, hreg⟩ := hw.client hactive
    refine ⟨fd, interest, hfd.trans hclient, harmed, ?_⟩
    rw [hlog, huntouched (.slot j .client) fd 0 nofun nofun (ledger_active d hactive hclient)]
    exact hreg
  · rw [hlog]
    refine huntouched (.slot k part) fd m (fun he => ?_) nofun ((ledger_other t d hk part).trans hplace)
    cases he
    exact hk rfl

/-- The client socket leaves epoll and is closed with its slot. -/
def closeClient (t : Turn) (j fd : Nat) : Turn :=
  shut { t with
    kernel := (t.kernel.epollCtl fd .del).2.close fd
    hc := { t.hc with fd := none } } j

theorem closeClient_wires {fd : Nat} (hactive : t.active = true) (hfd : t.hc.fd = some fd)
    (hfile : t.hc.fileFd = none) (hup : t.px.fd = none) : Wires j t (t.closeClient j fd) := by
  have hquiet : Goes j t { t with kernel := (t.kernel.epollCtl fd .del).2 } :=
    quiet_goes t (c := .epollCtl fd .del _) ⟨rfl, nofun⟩ rfl rfl
  have hclose := closeClient_goes (j := j)
    (t := { t with kernel := (t.kernel.epollCtl fd .del).2 }) hactive hfd hfile hup
  have hlog : ∃ ok, (t.closeClient j fd).log = (t.log ++ [.epollCtl fd .del ok]) ++ [.close fd] := by
    refine ⟨(t.kernel.epollCtl fd .del).1, ?_⟩
    show t.calls ++ ((t.kernel.wire.calls ++ [.epollCtl fd .del _]) ++ [.close fd]) = _
    rw [← List.append_assoc, ← List.append_assoc]
    rfl
  obtain ⟨ok, hlog⟩ := hlog
  refine ⟨hquiet.trans hclose, fun n d hd hj hn hfit hs hp hw => ?_⟩
  have hclient := ledger_active (j := j) d hactive hfd
  have hopen := hs.counted.isOpen _ fd 0 hclient
  have huntouched : ∀ p fd' m, p ≠ .slot j .client → (t.ledger j d).place p = some (fd', m) →
      registered (t.closeClient j fd).log fd' = registered t.log fd' := by
    intro p fd' m hp hplace
    have hne : some fd ≠ some fd' := by
      intro he
      rw [← Option.some.inj he] at hplace
      exact hp (hs.counted.once _ _ fd m 0 hplace hclient)
    rw [hlog, registered_one, afterCtl_other (c := .close fd) hne, registered_one,
      afterCtl_other (c := .epollCtl fd .del ok) hne]
  refine ⟨⟨⟨?_, fun fd' hfd' => ?_, fun e he => ?_, fun _ => hw.kept.wired.out hup⟩, nofun⟩,
    fun k part fd' m hk hpart hplace => ?_⟩
  · have hdel := hw.kept.live.call (c := .epollCtl fd .del ok) fun fd' op ok' he => by
      cases he
      rw [hopen]
      exact nofun
    rw [hlog, registered_one, registered_one, openFds_append, openFds_append]
    exact hdel.call nofun
  · rw [show t.px.fd = some fd' from hfd'] at hup
    cases hup
  · obtain ⟨i, hplace⟩ := ledger_idle_mem (t := t) (j := j) d he
    rw [huntouched (.idle i) e.fd 0 nofun hplace]
    exact hw.kept.wired.idle e he
  · refine huntouched (.slot k part) fd' m (fun he => ?_) ((ledger_other t d hk part).trans hplace)
    cases he
    exact hk rfl

theorem cleanup_wires (t : Turn) : Wires j t (t.withHandler t.toHandler.httpConnCleanup) :=
  Aloof.wires (cleanup_goes t) (Steps.aloof (Handler.httpConnCleanup_steps t.toHandler))

/-- `slot_close`. -/
theorem slotClose_wires (j : Nat) (t : Turn) : Wires j t (t.slotClose j) := by
  cases hactive : t.active with
  | false =>
      have hsame : t.slotClose j = t := by
        unfold slotClose
        rw [hactive]
        rfl
      rw [hsame]
      exact .refl t
  | true =>
      unfold slotClose
      rw [if_neg (by rw [hactive]; rintro ⟨⟩)]
      extract_lets src t₁ t₂ hc t₃
      have hlinked : World.Begun [] 0 t.world t.world.proxyClose :=
        .of_linked (World.proxyClose_linked t.world)
      have hclose : Wires j t t₁ := withWorld_wires hlinked hactive false
      have hclean : Wires j t t₂ := hclose.trans (cleanup_wires t₁)
      have hfile : t₂.hc.fileFd = none := (httpConnCleanup_hc t₁.toHandler).1
      have hup : t₂.px.fd = none := World.proxyClose_fd t.world
      refine hclean.trans ?_
      show Wires j t₂ (shut t₃ j)
      cases hfd : t₂.hc.fd with
      | none =>
          have ht₃ : t₃ = t₂ := by
            dsimp only [t₃, hc]
            rw [hfd]
          rw [ht₃]
          refine ⟨shut_goes hactive hfd hfile hup, fun n d _ _ _ _ _ _ hw => ?_⟩
          obtain ⟨fd, interest, hsome, -⟩ := hw.client hactive
          rw [hfd] at hsome
          cases hsome
      | some fd =>
          have ht₃ : shut t₃ j = t₂.closeClient j fd := by
            dsimp only [t₃, hc]
            rw [hfd]
            rfl
          rw [ht₃]
          exact closeClient_wires hactive hfd hfile hup

/-- The client socket of an active slot is registered for something else. -/
theorem register_wires {io : HttpIo} {interest : Interest} {fd : Nat} (hactive : t.active = true)
    (hinterest : interestOf io = some interest) (hfd : t.hc.fd = some fd)
    (hworks : (t.kernel.epollCtl fd (.mod interest)).1 = true) :
    Wires j t { t with kernel := (t.kernel.epollCtl fd (.mod interest)).2, armedIo := io } := by
  have hquiet : Goes j t { t with kernel := (t.kernel.epollCtl fd (.mod interest)).2 } :=
    quiet_goes t (c := .epollCtl fd (.mod interest) _) ⟨rfl, nofun⟩ rfl rfl
  have hnote : Goes j { t with kernel := (t.kernel.epollCtl fd (.mod interest)).2 }
      { t with kernel := (t.kernel.epollCtl fd (.mod interest)).2, armedIo := io } :=
    .same (fun hf => ⟨hf.cache, hf.fresh, hf.closed⟩) ⟨rfl, rfl⟩ rfl (fun _ => rfl) rfl rfl rfl
  have hlog : ({ t with
      kernel := (t.kernel.epollCtl fd (.mod interest)).2
      armedIo := io } : Turn).log = t.log ++ [.epollCtl fd (.mod interest) true] := by
    rw [← hworks]
    exact (List.append_assoc ..).symm
  refine ⟨hquiet.trans hnote, fun n d hd hj hn hfit hs hp hw => ?_⟩
  have hclient := ledger_active (j := j) d hactive hfd
  have hopen := hs.counted.isOpen _ fd 0 hclient
  have huntouched : ∀ p fd' m, p ≠ .slot j .client → (t.ledger j d).place p = some (fd', m) →
      registered (t.log ++ [.epollCtl fd (.mod interest) true]) fd' = registered t.log fd' := by
    intro p fd' m hp hplace
    have hne : some fd ≠ some fd' := by
      intro he
      rw [← Option.some.inj he] at hplace
      exact hp (hs.counted.once _ _ fd m 0 hplace hclient)
    rw [registered_one, afterCtl_other (c := .epollCtl fd (.mod interest) true) hne]
  refine ⟨⟨⟨?_, fun fd' hfd' => ?_, fun e he => ?_, hw.kept.wired.out⟩, fun _ => ?_⟩,
    fun k part fd' m hk hpart hplace => ?_⟩
  · rw [hlog, registered_one, openFds_append]
    refine hw.kept.live.call (c := .epollCtl fd (.mod interest) true) fun fd' op ok he => ?_
    cases he
    rw [hopen]
    exact nofun
  · have hplace : (t.ledger j d).place (.slot j .upstream) = some (fd', 0) := by
      rw [ledger_upstream, show t.px.fd = some fd' from hfd']
      rfl
    rw [hlog, huntouched (.slot j .upstream) fd' 0 nofun hplace]
    exact hw.kept.wired.upstream fd' hfd'
  · obtain ⟨i, hplace⟩ := ledger_idle_mem (t := t) (j := j) d he
    rw [hlog, huntouched (.idle i) e.fd 0 nofun hplace]
    exact hw.kept.wired.idle e he
  · refine ⟨fd, interest, hfd, hinterest, ?_⟩
    rw [hlog, registered_one]
    exact Function.update_self ..
  · rw [hlog]
    refine huntouched (.slot k part) fd' m (fun he => ?_) ((ledger_other t d hk part).trans hplace)
    cases he
    exact hk rfl

/-- `arm_events`. -/
theorem armEvents_wires (j : Nat) (io : HttpIo) (hactive : t.active = true) :
    Wires j t (t.armEvents j io) := by
  unfold armEvents
  split
  · exact .refl t
  split
  · rename_i interest fd hinterest hfd
    extract_lets r
    split
    · rename_i hworks
      exact register_wires hactive hinterest hfd hworks
    · rename_i hfails
      refine Wires.trans ?_ (slotClose_wires j _)
      have hno : r.1 = false := by simpa using hfails
      have hquiet : Goes j t { t with kernel := r.2 } :=
        quiet_goes t (c := .epollCtl fd (.mod interest) _) ⟨rfl, nofun⟩ rfl rfl
      refine ⟨hquiet, fun n d hd hj hn hfit hs hp hw => ?_⟩
      have hlog : ({ t with kernel := r.2 } : Turn).log =
          t.log ++ [.epollCtl fd (.mod interest) false] := by
        rw [← hno]
        exact (List.append_assoc ..).symm
      have hreg : registered ({ t with kernel := r.2 } : Turn).log = registered t.log := by
        rw [hlog, registered_one]
        rfl
      have hopens : openFds ({ t with kernel := r.2 } : Turn).log = openFds t.log := by
        rw [hlog, openFds_append]
        rfl
      refine ⟨⟨⟨?_, ?_⟩, ?_⟩, fun _ _ _ _ _ _ _ => by rw [hreg]⟩
      · rw [hreg, hopens]
        exact hw.kept.live
      · rw [hreg]
        exact hw.kept.wired
      · rw [hreg]
        exact hw.client
  · exact slotClose_wires j t

/-- Where `arm_events` leaves the slot open, the client socket is registered for what was
asked, whether or not epoll had to be told. -/
theorem armEvents_registered {io : HttpIo} (hw : t.Wired) (hactive : t.active = true)
    (hopen : (t.armEvents j io).active = true) : ∃ fd interest,
      (t.armEvents j io).hc.fd = some fd ∧ interestOf io = some interest ∧
        registered (t.armEvents j io).log fd = some interest := by
  have hclosed : ∀ u : Turn, u.active = true → (u.slotClose j).active = false := by
    intro u hu
    unfold slotClose
    rw [if_neg (by rw [hu]; exact nofun)]
  obtain ⟨fd, interest, hfd, harmed, hreg⟩ := hw.client hactive
  unfold armEvents at hopen ⊢
  by_cases hskip : t.armedIo = io
  · rw [if_pos hskip]
    exact ⟨fd, interest, hfd, by rw [← hskip]; exact harmed, hreg⟩
  rw [if_neg hskip] at hopen ⊢
  cases hinterest : interestOf io with
  | none =>
      rw [hinterest] at hopen
      rw [hclosed t hactive] at hopen
      cases hopen
  | some asked =>
      rw [hinterest, hfd] at hopen
      rw [hfd]
      simp only at hopen ⊢
      cases hworks : (t.kernel.epollCtl fd (.mod asked)).1 with
      | false =>
          rw [hworks, if_neg Bool.false_ne_true,
            hclosed { t with kernel := (t.kernel.epollCtl fd (.mod asked)).2 } hactive] at hopen
          cases hopen
      | true =>
          rw [if_pos rfl]
          refine ⟨fd, asked, hfd, rfl, ?_⟩
          have hlog : ({ t with
              kernel := (t.kernel.epollCtl fd (.mod asked)).2
              armedIo := io } : Turn).log = t.log ++ [.epollCtl fd (.mod asked) true] := by
            rw [← hworks]
            exact (List.append_assoc ..).symm
          rw [hlog, registered_one]
          exact Function.update_self ..

end Sockets

end Turn

/-! ## Acts -/

section Acts

variable {site : Site} {fuel now idx : Nat} {p q : Point} {t t' : Turn}

/-- The step lemma. -/
theorem Act.wires (h : Act site fuel now idx (p, t) (q, t')) (hs : Stance p t) :
    Turn.Wires idx t t' := by
  obtain ⟨-, hgoes⟩ := h.goes hs
  cases h.deed hs with
  | aloof _ ha => exact Turn.Aloof.wires hgoes fun _ => ha
  | close => exact Turn.slotClose_wires idx t
  | arm io hactive => exact Turn.armEvents_wires idx io hactive
  | pump v proxying hactive hl =>
      have hlinked : World.Begun [] 0 t.world v := .of_linked hl
      exact Turn.withWorld_wires hlinked hactive proxying
  | proxy loop r v proxying hp hactive hroute htype hl =>
      have hnote : Turn.Wires idx t (t.asking r) :=
        Turn.Aloof.wires ((routed_goes t).trans (Turn.takes_goes t.routed r))
          fun _ => .still rfl rfl rfl rfl rfl rfl
      have hbegun : World.Begun r.upstream r.upstreamLen (t.asking r).world v := hl
      exact hnote.trans (Turn.withWorld_wires hbegun hactive proxying)

/-- The run lemma. -/
theorem Acts.wires (h : Acts site fuel now idx (p, t) (q, t')) (hs : Stance p t) :
    Stance q t' ∧ Turn.Wires idx t t' := by
  refine h.invariant (I := fun r u => Stance r u ∧ Turn.Wires idx t u) ?_ ⟨hs, .refl t⟩
  intro r u r' u' hact hi
  exact ⟨(hact.goes hi.1).1, hi.2.trans (hact.wires hi.1)⟩

end Acts

/-! ## The worker -/

namespace Worker

/-- What the slots note about registrations is so, and idle sockets are not registered. -/
structure Wired (w : Worker) : Prop where
  live : Live (registered w.calls) (openFds w.calls)
  idle : ∀ e ∈ w.pool, registered w.calls e.fd = none
  client : ∀ (k : Nat) (s : Slot), w.slots[k]? = some s → s.active = true →
    ∃ fd interest, s.hc.fd = some fd ∧ Turn.interestOf s.armedIo = some interest ∧
      registered w.calls fd = some interest
  upstream : ∀ (k : Nat) (s : Slot), w.slots[k]? = some s → ∀ fd, s.px.fd = some fd →
    registered w.calls fd = if s.px.inEpoll then some (upInterest s.px.armed) else none
  out : ∀ (k : Nat) (s : Slot), w.slots[k]? = some s → s.px.fd = none → s.px.inEpoll = false

section Wired

variable {site : Site} {fuel n j : Nat} {w w' : Worker} {s : Slot} {t t' : Turn}

/-- A new worker has nothing registered. -/
theorem start_wired (n : Nat) : (Worker.start n).Wired := by
  have hunused : ∀ (k : Nat) (s : Slot), (List.replicate n Slot.unused)[k]? = some s →
      s = .unused := by
    intro k s hs
    exact List.eq_of_mem_replicate (List.mem_of_getElem? hs)
  refine ⟨fun _ h => absurd rfl h, nofun, fun k s hs hactive => ?_, fun k s hs fd hfd => ?_,
    fun k s hs _ => ?_⟩
  · rw [hunused k s hs] at hactive
    cases hactive
  · rw [hunused k s hs] at hfd
    cases hfd
  · rw [hunused k s hs]
    rfl

/-- Calls that change no registration. -/
theorem Wired.passing (hw : w.Wired) (hreg : registered w'.calls = registered w.calls)
    (hopens : openFds w'.calls = openFds w.calls) (hpool : w'.pool = w.pool)
    (hslots : ∀ (k : Nat) (s : Slot), w'.slots[k]? = some s → w.slots[k]? = some s ∨
      s.active = false ∧ s.px.fd = none ∧ s.px.inEpoll = false) : w'.Wired := by
  refine ⟨?_, fun e he => ?_, fun k s hs hactive => ?_, fun k s hs fd hfd => ?_,
    fun k s hs hnone => ?_⟩
  · rw [hreg, hopens]
    exact hw.live
  · rw [hpool] at he
    rw [hreg]
    exact hw.idle e he
  · rcases hslots k s hs with hs | ⟨hoff, -, -⟩
    · rw [hreg]
      exact hw.client k s hs hactive
    · rw [hoff] at hactive
      cases hactive
  · rcases hslots k s hs with hs | ⟨-, hnone, -⟩
    · rw [hreg]
      exact hw.upstream k s hs fd hfd
    · rw [hnone] at hfd
      cases hfd
  · rcases hslots k s hs with hs | ⟨-, -, hout⟩
    · exact hw.out k s hs hnone
    · exact hout

/-- A connection that is closed at once leaves no registration. -/
theorem registered_passing {calls cs : List ControlCall} {fd : Nat}
    (hlive : Live (registered calls) (openFds calls)) (hfresh : openFds calls fd = none)
    (hcs : ∀ c ∈ cs, c.touched = some fd) :
    registered (calls ++ (.accept fd :: cs ++ [.close fd])) = registered calls := by
  have hsame : ∀ (l : List ControlCall) (reg : Nat → Option Interest) (k : Nat), k ≠ fd →
      (∀ c ∈ l, c.touched = some fd) → afterCtls reg l k = reg k := by
    intro l
    induction l with
    | nil => exact fun _ _ _ _ => rfl
    | cons c l ih =>
        intro reg k hk hl
        refine (ih _ k hk fun c' h => hl c' (List.mem_cons_of_mem c h)).trans (afterCtl_other ?_)
        rw [hl c List.mem_cons_self]
        exact fun he => hk (Option.some.inj he).symm
  funext k
  rw [registered_append, afterCtls_append]
  by_cases hk : k = fd
  · rw [hk, hlive.fresh hfresh]
    exact Function.update_self ..
  · refine (Function.update_of_ne hk _ _).trans ?_
    exact hsame cs (registered calls) k hk hcs

/-- What a handler starts from. -/
theorem load_wired (sched : Schedule) (disk : Disk) (hfit : w.Fit n) (hs : w.slots[j]? = some s)
    (hw : w.Wired) : (w.load s sched disk).Wired := by
  have hlog : (w.load s sched disk).log = w.calls := by
    show w.calls ++ s.wire.calls = _
    rw [(hfit.slots s (List.mem_of_getElem? hs)).calls, List.append_nil]
  refine ⟨⟨?_, ?_, ?_, hw.out j s hs⟩, ?_⟩
  · rw [hlog]
    exact hw.live
  · rw [hlog]
    exact hw.upstream j s hs
  · rw [hlog]
    exact hw.idle
  · rw [hlog]
    exact hw.client j s hs

/-- What a handler leaves is stored. -/
theorem store_wired (hn : n ≤ UINT16_MAX) (hfit : w.Fit n) (hsane : w.Sane n)
    (hs : w.slots[j]? = some s) (henter : Enters j w t) (ht : t.Wired)
    (hsame : ∀ k (x : Slot), k ≠ j → w.slots[k]? = some x → ∀ part fd,
      x.owns part = some fd → Place.kind (.slot k part) ≠ .file →
        registered t.log fd = registered w.calls fd)
    (hwires : Turn.Wires j t t') (hpromised : Promised (w.store j t').calls) (hw : w.Wired) :
    (w.store j t').Wired := by
  have hpromised : Promised t'.log := hpromised
  obtain ⟨-, -, cs, hlog, hmoves, -⟩ := hwires.goes henter.fit
  obtain ⟨cs₀, hlog₀, -, hmoves₀⟩ := henter.moves
  have hj : j < n := by
    rw [← hfit.count]
    exact (List.getElem?_eq_some_iff.1 hs).1
  have hsound : Sound Place.kind n (openFds t.log) (t.ledger j w.ledger) := by
    have hfresh := hpromised
    rw [hlog, hlog₀, List.append_assoc] at hfresh
    rw [hlog₀, openFds_append]
    exact hmoves₀.sound hj hn hsane.sound ((freshAfter_append _ _ _).1 hfresh.append.2.1).1
  obtain ⟨ht', hspare⟩ :=
    hwires.keeps n w.ledger (ledger_plain w) hj hn henter.fit hsound hpromised ht
  -- The sockets of another slot are registered as before.
  have hother : ∀ k (x : Slot), k ≠ j → w.slots[k]? = some x → ∀ part fd, x.owns part = some fd →
      Place.kind (.slot k part) ≠ .file → registered t'.log fd = registered w.calls fd := by
    intro k x hk hx part fd howns hpart
    have hplace : w.ledger.place (.slot k part) = some (fd, 0) := by
      show ((w.slots[k]?).bind fun s => s.owns part).map _ = _
      rw [hx, Option.bind_some, howns]
      rfl
    exact (hspare k part fd 0 hk hpart hplace).trans (hsame k x hk hx part fd howns hpart)
  refine ⟨ht'.kept.live, ht'.kept.wired.idle, fun k x hx hactive => ?_, fun k x hx fd hfd => ?_,
    fun k x hx hnone => ?_⟩
  · by_cases hk : k = j
    · rw [hk, store_self t' hs] at hx
      rw [← Option.some.inj hx] at hactive ⊢
      exact ht'.client hactive
    · rw [store_slots t' hk] at hx
      obtain ⟨fd, interest, hfd, harmed, hreg⟩ := hw.client k x hx hactive
      have howns : x.owns .client = some fd := (if_pos hactive).trans hfd
      exact ⟨fd, interest, hfd, harmed, (hother k x hk hx .client fd howns nofun).trans hreg⟩
  · by_cases hk : k = j
    · rw [hk, store_self t' hs] at hx
      rw [← Option.some.inj hx] at hfd ⊢
      exact ht'.kept.wired.upstream fd hfd
    · rw [store_slots t' hk] at hx
      exact (hother k x hk hx .upstream fd hfd nofun).trans (hw.upstream k x hx fd hfd)
  · by_cases hk : k = j
    · rw [hk, store_self t' hs] at hx
      rw [← Option.some.inj hx] at hnone ⊢
      exact ht'.kept.wired.out hnone
    · rw [store_slots t' hk] at hx
      exact hw.out k x hx hnone

theorem idle_open (hsane : w.Sane n) {e : ProxyIdle} (he : e ∈ w.pool) :
    openFds w.calls e.fd ≠ none := by
  obtain ⟨i, hi⟩ := List.mem_iff_getElem?.1 he
  have hplace : w.ledger.place (.idle i) = some (e.fd, 0) := by
    show (w.pool[i]?).map _ = _
    rw [hi]
    rfl
  rw [hsane.sound.counted.isOpen (.idle i) e.fd 0 hplace]
  exact nofun

/-- What a slot owns is open. -/
theorem owns_open (hsane : w.Sane n) {k : Nat} {x : Slot} (hx : w.slots[k]? = some x) {part : Part}
    {fd : Nat} (howns : x.owns part = some fd) : openFds w.calls fd ≠ none := by
  have hplace : w.ledger.place (.slot k part) = some (fd, 0) := by
    show ((w.slots[k]?).bind fun s => s.owns part).map _ = _
    rw [hx, Option.bind_some, howns]
    rfl
  rw [hsane.sound.counted.isOpen (.slot k part) fd 0 hplace]
  exact nofun

/-- The slot of a new connection. -/
theorem admitted_wired {fd : Nat} {free : List Nat} {sched : Schedule} (now : Nat) (disk : Disk)
    (hfit : w.Fit n) (hfree : w.freeStack = j :: free) (hs : w.slots[j]? = some s)
    (hwatched : Watched sched fd) (hfresh : openFds w.calls fd = none) (hsane : w.Sane n)
    (hw : w.Wired) : (w.admitted s fd now free sched disk).Wired ∧
      ∀ fd', openFds w.calls fd' ≠ none →
        registered (w.admitted s fd now free sched disk).log fd' = registered w.calls fd' := by
  obtain ⟨hoff, -⟩ := hfit.top hfree hs
  have hlog : (w.admitted s fd now free sched disk).log = (w.calls ++ [.accept fd]) ++
      [.epollCtl fd (.add ⟨true, false⟩)
        (Kernel.epollCtl ⟨sched, .empty⟩ fd (.add ⟨true, false⟩)).1] := rfl
  unfold Watched at hwatched
  rw [hwatched] at hlog
  have hother : ∀ fd', openFds w.calls fd' ≠ none →
      registered (w.admitted s fd now free sched disk).log fd' = registered w.calls fd' := by
    intro fd' hopen
    have hne : some fd ≠ some fd' := by
      intro he
      rw [← Option.some.inj he] at hopen
      exact hopen hfresh
    rw [hlog, registered_one, afterCtl_other (c := .epollCtl fd (.add ⟨true, false⟩) true) hne,
      registered_one, afterCtl_untouched rfl]
  refine ⟨⟨⟨?_, nofun, fun e he => ?_, fun _ => ?_⟩, fun _ => ⟨fd, ⟨true, false⟩, rfl, rfl, ?_⟩⟩, hother⟩
  · rw [hlog, registered_one, registered_one, openFds_append, openFds_append]
    have haccept := hw.live.call (c := .accept fd) nofun
    refine haccept.call fun fd' op ok he => ?_
    cases he
    have hself : afterCall (openFds w.calls) (.accept fd) fd = some .client :=
      Function.update_self ..
    rw [hself]
    exact nofun
  · exact (hother e.fd (idle_open hsane he)).trans (hw.idle e he)
  · exact hw.out j s hs ((hfit.slots s (List.mem_of_getElem? hs)).closed hoff).2
  · rw [hlog, registered_one]
    exact Function.update_self ..

/-- The step lemma. -/
theorem Tend.wired (hn : n ≤ UINT16_MAX) (hr : Regular n w) (h : Tend site fuel anyState w w')
    (hpromised : Promised w'.calls) (hw : w.Wired) : w'.Wired := by
  obtain ⟨cs, hcalls⟩ := (h.regular hr).2
  have hsane : w.Sane n := by
    have hfresh := hpromised.fresh
    rw [hcalls] at hfresh
    exact hr.sane hn hfresh.append.1
  cases h with
  -- A connection that is closed as it was accepted.
  | stale fd =>
      have hsplit : ((w.call (.accept fd)).call (.close fd)).calls =
          w.calls ++ (.accept fd :: [] ++ [.close fd]) := List.append_assoc ..
      rw [hsplit] at hpromised
      have hfresh := hpromised.append.2.1
      refine hw.passing ?_ ?_ rfl fun k s hs => Or.inl hs
      · rw [hsplit]
        exact registered_passing hw.live (hfresh.1 fd rfl) nofun
      · rw [hsplit, openFds_append]
        exact afterCalls_passing nofun hfresh
  -- One that could not be registered, and whose slot was given back.
  | reject fd now idx free s sched disk hfree hs =>
      have ht := rejected_spec fd now sched disk hfree s
      obtain ⟨hoff, -⟩ := hr.fit.top hfree hs
      obtain ⟨ok, hlog⟩ := ht.log
      have hstore : (w.store idx (w.rejected idx s fd now free sched disk)).calls =
          w.calls ++ (.accept fd :: [.epollCtl fd (.add ⟨true, false⟩) ok] ++ [.close fd]) := hlog
      rw [hstore] at hpromised
      have hfresh := hpromised.append.2.1
      refine hw.passing ?_ ?_ ht.pool fun k x hx => ?_
      · rw [hstore]
        refine registered_passing hw.live (hfresh.1 fd rfl) fun c hc => ?_
        rw [List.mem_singleton.1 hc]
        rfl
      · rw [hstore, openFds_append]
        refine afterCalls_passing (fun c hc => ?_) hfresh
        rw [List.mem_singleton.1 hc]
        exact ⟨rfl, nofun⟩
      -- Only that slot is touched, and it ends inactive with no socket.
      · by_cases hk : k = idx
        · rw [hk, store_self _ hs] at hx
          rw [← Option.some.inj hx]
          refine Or.inr ⟨ht.active.trans hoff, ht.upstream, ht.inEpoll.trans ?_⟩
          exact hw.out idx s hs ((hr.fit.slots s (List.mem_of_getElem? hs)).closed hoff).2
        · rw [store_slots _ hk] at hx
          exact Or.inl hx
  -- A client enters a slot: the acts after it run on that slot alone.
  | enter fd now idx free s sched disk t hfree hs hwatched h =>
      have henter := admitted_enters fd now sched disk hr.fit hfree hs
      obtain ⟨-, hwires⟩ := h.acts.wires (.at_rest henter.fit)
      obtain ⟨-, -, cs', hlog, -⟩ := hwires.goes henter.fit
      have hfresh : openFds w.calls fd = none := by
        have hall : Promised t.log := hpromised
        -- The descriptor of the accept was not open.
        have hlog₀ : (w.admitted s fd now free sched disk).log = w.calls ++
            [.accept fd, .epollCtl fd (.add ⟨true, false⟩)
              (Kernel.epollCtl ⟨sched, .empty⟩ fd (.add ⟨true, false⟩)).1] := List.append_assoc ..
        rw [hlog, hlog₀] at hall
        exact hall.append.1.append.2.1.1 fd rfl
      obtain ⟨ht, hsame⟩ := admitted_wired now disk hr.fit hfree hs hwatched hfresh hsane hw
      exact store_wired hn hr.fit hsane hs henter ht
        (fun k x _ hx part fd' howns _ => hsame fd' (owns_open hsane hx howns)) hwires hpromised hw
  -- A slot with a client handles its event.
  | handle now idx s sched disk t hs hactive h =>
      have henter := load_enters sched disk hr.fit hs hactive
      obtain ⟨-, hwires⟩ := h.acts.wires (.at_rest henter.fit)
      have hlog : (w.load s sched disk).log = w.calls := by
        show w.calls ++ s.wire.calls = _
        rw [(hr.fit.slots s (List.mem_of_getElem? hs)).calls, List.append_nil]
      exact store_wired hn hr.fit hsane hs henter (load_wired sched disk hr.fit hs hw)
        (fun _ _ _ _ _ _ _ _ => by rw [hlog]) hwires hpromised hw

/-- Clearing the tables closes files and idle sockets. -/
theorem cleared_wired (hn : n ≤ UINT16_MAX) (hr : Regular n w)
    (hoff : ∀ s ∈ w.slots, s.active = false) (hfresh : FreshCalls w.cleared.calls) (hw : w.Wired) :
    w.cleared.Wired := by
  obtain ⟨cs, hcalls, hsheds⟩ := cleared_sheds hn hr hoff hfresh
  have hnone : ∀ s ∈ w.slots, s.px.fd = none := fun s hs => ((hr.fit.slots s hs).closed (hoff s hs)).2
  refine ⟨?_, nofun, fun k s hs hactive => ?_, fun k s hs fd hfd => ?_, hw.out⟩
  · rw [hcalls, registered_append, openFds_append]
    exact hw.live.files hsheds.files
  · rw [hoff s (List.mem_of_getElem? hs)] at hactive
    cases hactive
  · rw [hnone s (List.mem_of_getElem? hs)] at hfd
    cases hfd

/-- In every state that a worker reaches, what the slots note about registrations is so. -/
theorem reachable_wired (site : Site) (fuel : Nat) {n : Nat} (hn : n ≤ UINT16_MAX)
    (as : List Action) : ∀ w ∈ runStates (Worker.step site fuel) (Worker.start n) as,
      Promised w.calls → w.Wired := by
  refine reachable_of_tends (fun _ => start_wired n) (fun w w' hr h hk hpromised => ?_)
    (fun w hr hoff hk hpromised => ?_) as
  · obtain ⟨cs, hcalls⟩ := (h.regular hr).2
    refine h.wired hn hr hpromised (hk ?_)
    rw [hcalls] at hpromised
    exact hpromised.append.1
  · obtain ⟨cs, hcalls, -⟩ := cleared_sheds hn hr hoff hpromised.fresh
    refine cleared_wired hn hr hoff hpromised.fresh (hk ?_)
    rw [hcalls] at hpromised
    exact hpromised.append.1

/-- In every state that a worker reaches, `armed_io` is what the client socket of an active
slot is registered for, an upstream socket is registered exactly when `in_epoll` says so, and
then for `armed`. This holds at every point of a handler too, so that `arm_events` and
`arm_up` leave registered what they were asked for, whether or not they make a call. -/
theorem reachable_registered (site : Site) (fuel : Nat) {n : Nat} (hn : n ≤ UINT16_MAX)
    (as : List Action) : ∀ w ∈ runStates (Worker.step site fuel) (Worker.start n) as,
      Promised w.calls → w.Wired ∧
        ∀ k s now sched disk p t, w.slots[k]? = some s → s.active = true →
          Acts site fuel now k (.rest, w.load s sched disk) (p, t) → Promised t.log →
            t.Wired ∧
            (t.active = true → ∀ io, (t.armEvents k io).active = true → ∃ fd interest,
              (t.armEvents k io).hc.fd = some fd ∧ Turn.interestOf io = some interest ∧
                registered (t.armEvents k io).log fd = some interest) ∧
            ∀ fd io, t.px.fd = some fd → (t.world.armUp io).1 = true →
              registered (t.calls ++ (t.world.armUp io).2.kernel.wire.calls) fd =
                some (upInterest io) := by
  intro w hw hpromised
  have hwired := reachable_wired site fuel hn as w hw hpromised
  refine ⟨hwired, fun k s now sched disk p t hs hactive hacts hlater => ?_⟩
  have hsteady := reachable_steady site fuel n as w hw
  have hon : w.exited = false := by
    cases hexit : w.exited with
    | false => rfl
    | true =>
        rw [reachable_exited site fuel n as w hw hexit s (List.mem_of_getElem? hs)] at hactive
        cases hactive
  have hfit := hsteady.fit hon
  have hsane := hsteady.sane hn hpromised.fresh
  have henter := load_enters sched disk hfit hs hactive
  obtain ⟨-, hwires⟩ := hacts.wires (.at_rest henter.fit)
  have hj : k < n := by
    rw [← hfit.count]
    exact (List.getElem?_eq_some_iff.1 hs).1
  have hlog : (w.load s sched disk).log = w.calls := by
    show w.calls ++ s.wire.calls = _
    rw [(hfit.slots s (List.mem_of_getElem? hs)).calls, List.append_nil]
  have hsound : Sound Place.kind n (openFds (w.load s sched disk).log)
      ((w.load s sched disk).ledger k w.ledger) := by
    rw [hlog, load_ledger hs (hfit.slots s (List.mem_of_getElem? hs)).calls]
    exact hsane.sound
  obtain ⟨ht, -⟩ := hwires.keeps n w.ledger (ledger_plain w) hj hn henter.fit hsound hlater
    (load_wired sched disk hfit hs hwired)
  exact ⟨ht, fun hact io => Turn.armEvents_registered ht hact,
    fun fd io hfd => World.armUp_registered hfd ht.kept.wired⟩

end Wired

end Worker

/-- A proxied request waits for its response. -/
theorem reachable_registered_waiting :
    ∃ w ∈ runStates (Worker.step proxySite 20) (Worker.start 1) (staleRun.take 1), ∃ s,
      w.slots[0]? = some s ∧ s.px.fd = some 6 ∧ registered w.calls 6 = some ⟨true, false⟩ := by
  obtain ⟨w, hw, hpromised, hslots⟩ := exists_of_run
    (p := fun w => Promised w.calls ∧ w.slots.map (fun s => (s.px.fd, s.px.inEpoll, s.px.armed)) =
      [(some 6, true, .wantRead)])
    (show (runTo (Worker.step proxySite 20) (Worker.start 1) (staleRun.take 1)).any _ = true by
      decide +kernel)
  obtain ⟨s, hs, hfacts⟩ := List.map_eq_singleton_iff.1 hslots
  simp only [Prod.mk.injEq] at hfacts
  obtain ⟨hfd, hin, harmed⟩ := hfacts
  have hslot : w.slots[0]? = some s := by rw [hs, List.getElem?_cons_zero]
  obtain ⟨hwired, -⟩ :=
    Worker.reachable_registered proxySite 20 (by decide) (staleRun.take 1) w hw hpromised
  refine ⟨w, hw, s, hslot, hfd, ?_⟩
  rw [hwired.upstream 0 s hslot 6 hfd, hin, harmed, if_pos rfl]
  rfl

end TinyServer.Serve
