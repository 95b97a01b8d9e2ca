import TinyServer.Proxy.Exchange
import TinyServer.Proxy.Links

/-!
# What a result says about the upstream socket

`http.c` and `worker.c` see only the result of `proxy_begin` and `proxy_pump`. A slot that
still has its upstream socket waits for one of its two sockets, and its client connection
is in the phase in which it was (`Ends.waits`). A slot without one is done, is to be
closed, or has an answer of the proxy to send.
-/

set_option autoImplicit false

namespace TinyServer.Proxy

open TinyServer.Http TinyServer.Net

namespace World

/-- What a result says about the slot it leaves. -/
inductive Ends (w : World) : HttpIo → World → Prop
  | waits (io : HttpIo) (v : World) (hio : io.yields = true) (hup : v.px.fd.isSome = true)
      (hphase : v.hc.phase = w.hc.phase) : Ends w io v
  | done (v : World) (hup : v.px.fd = none) : Ends w .done v
  | close (v : World) (hup : v.px.fd = none) : Ends w .close v
  | answer (v : World) (hup : v.px.fd = none) (hphase : v.hc.phase = .writeFixed) :
      Ends w .wantWrite v

/-- The slot keeps its upstream socket, and its client connection its phase. -/
def Holds (w v : World) : Prop :=
  v.relay.up = w.relay.up ∧ v.relay.clientPhase = w.relay.clientPhase

/-- The exits after which the slot waits. -/
def Yields : Exit → Prop
  | .yield _ io => io.yields = true
  | .ret io => io.yields = true
  | _ => True

/-- A turn that does not fail leaves the slot a socket. -/
structure TurnHolds (w : World) (r : World × Exit) : Prop where
  phase : r.1.hc.phase = w.hc.phase
  up : r.2 ≠ .fail → r.1.px.fd.isSome = true
  yields : Yields r.2

section Turns

variable {w v : World} {now b : Nat}

theorem Holds.refl (w : World) : Holds w w := ⟨rfl, rfl⟩

theorem Holds.trans {u : World} (h : Holds w u) (h' : Holds u v) : Holds w v :=
  ⟨h'.1.trans h.1, h'.2.trans h.2⟩

/-- What does not move the relay holds what it has. -/
theorem Holds.of_relay (h : v.relay = w.relay) : Holds w v :=
  ⟨congrArg Relay.up h, congrArg Relay.clientPhase h⟩

theorem moved_holds (w : World) (now n : Nat) : Holds w (w.moved now n) :=
  .of_relay (w.moved_relay now n)

theorem markSent_holds (w : World) (n : Nat) : Holds w (w.markSent n) := by
  unfold markSent
  split
  · exact .refl w
  · exact ⟨rfl, rfl⟩

theorem noteBody_holds {n : Nat} (h : w.noteBody n = some v) : Holds w v := by
  obtain ⟨hfd, -⟩ := (noteBody_sockets h).parts
  obtain ⟨px, -, rfl⟩ := Option.map_eq_some_iff.1 h
  exact ⟨congrArg Option.isSome hfd, rfl⟩

theorem TurnHolds.of_holds {r : World × Exit} (hlive : w.px.fd.isSome = true) (h : Holds w r.1)
    (hexit : Yields r.2) : TurnHolds w r :=
  ⟨h.2, fun _ => h.1.trans hlive, hexit⟩

theorem TurnHolds.after {r : World × Exit} (h : Holds w v) (h' : TurnHolds v r) : TurnHolds w r :=
  ⟨h'.phase.trans h.2, h'.up, h'.yields⟩

/-- A new connection, or a failure. -/
theorem proxyReopen_holds (w : World) : w.proxyReopen.2.hc.phase = w.hc.phase ∧
    (w.proxyReopen.1 = true → w.proxyReopen.2.px.fd.isSome = true) := by
  obtain ⟨conns, up, hrel, -, hopen⟩ := w.proxyReopen_relay
  refine ⟨congrArg Relay.clientPhase hrel, fun hok => ?_⟩
  have hup : w.proxyReopen.2.px.fd.isSome = up := congrArg Relay.up hrel
  rw [hup]
  exact (hopen hok).1

theorem sendReqNext_holds (w : World) (b : Nat) :
    Holds w (w.sendReqNext b).1 ∧ Yields (w.sendReqNext b).2 := by
  unfold sendReqNext
  split
  · exact ⟨⟨rfl, rfl⟩, trivial⟩
  · have hcork : Holds w (w.corkUp false) := .of_relay (w.corkUp_relay false)
    exact ⟨hcork, trivial⟩

/-- What a turn of `PX_SEND_REQ` leaves. -/
theorem sendReqTurn_holds (hlive : w.px.fd.isSome = true) : TurnHolds w (w.sendReqTurn now b) := by
  unfold sendReqTurn
  split
  · extract_lets r src w₁ q
    have hmoved : Holds w (w₁.moved now r.1) := moved_holds w₁ now r.1
    split
    · split
      · -- the socket of the pool took nothing, and a new one replaces it
        obtain ⟨hphase, hup⟩ := proxyReopen_holds w₁
        split
        · rename_i hq
          exact ⟨hphase, fun _ => hup hq, trivial⟩
        · exact ⟨hphase, fun hne => absurd rfl hne, trivial⟩
      · exact ⟨rfl, fun hne => absurd rfl hne, trivial⟩
    · exact .of_holds hlive hmoved rfl
    · obtain ⟨hnext, hexit⟩ := sendReqNext_holds (w₁.moved now r.1) (spend b r.1)
      exact .of_holds hlive (hmoved.trans hnext) hexit
  · obtain ⟨hnext, hexit⟩ := sendReqNext_holds w b
    exact .of_holds hlive hnext hexit

/-- What a turn of `PX_SEND_BODY` leaves. -/
theorem sendBodyTurn_holds (w : World) (now b : Nat) :
    Holds w (w.sendBodyTurn now b).1 ∧ Yields (w.sendBodyTurn now b).2 := by
  unfold sendBodyTurn
  split
  · extract_lets r src w₁
    have hmoved : Holds w (w₁.moved now r.1) := moved_holds w₁ now r.1
    split
    · exact ⟨⟨rfl, rfl⟩, trivial⟩
    · exact ⟨hmoved, rfl⟩
    · exact ⟨hmoved, trivial⟩
  split
  · extract_lets r src w₁
    have hmoved : Holds w (w₁.moved now r.1) := moved_holds w₁ now r.1
    split
    · exact ⟨⟨rfl, rfl⟩, trivial⟩
    · exact ⟨hmoved, rfl⟩
    · exact ⟨hmoved, trivial⟩
  split
  · extract_lets r src w₁
    split
    · exact ⟨⟨rfl, rfl⟩, trivial⟩
    · exact ⟨⟨rfl, rfl⟩, rfl⟩
    · exact ⟨⟨rfl, rfl⟩, trivial⟩
  · have hcork : Holds w (w.corkUp false) := .of_relay (w.corkUp_relay false)
    exact ⟨hcork, trivial⟩

/-- What a retry leaves. -/
theorem retryOrFail_holds (hlive : w.px.fd.isSome = true) : TurnHolds w (w.retryOrFail b) := by
  unfold retryOrFail
  split
  · extract_lets -lift q
    have hretry : q.2.hc.phase = w.hc.phase ∧ (q.1 = true → q.2.px.fd.isSome = true) := by
      unfold q proxyRetryIdle
      split
      · exact ⟨rfl, nofun⟩
      · extract_lets -lift r
        obtain ⟨hphase, hup⟩ := proxyReopen_holds w
        split
        · exact ⟨hphase, nofun⟩
        · rename_i hok
          exact ⟨hphase, fun _ => hup (by simpa using hok)⟩
    split
    · rename_i hq
      exact ⟨hretry.1, fun _ => hretry.2 hq, trivial⟩
    · exact ⟨hretry.1, fun hne => absurd rfl hne, trivial⟩
  · exact .of_holds hlive (.refl w) trivial

/-- What a head leaves. -/
theorem headTurn_holds (w : World) (b at' : Nat) :
    Holds w (w.headTurn b at').1 ∧ Yields (w.headTurn b at').2 := by
  unfold headTurn
  extract_lets total rest left
  split
  · exact ⟨.refl w, trivial⟩
  · exact ⟨⟨rfl, rfl⟩, trivial⟩
  · rename_i px hfinal
    extract_lets w₁
    have hplug : px.fd = w.px.fd := congrArg Prod.fst (rewriteResponse_plug hfinal)
    have hhead : Holds w w₁ := ⟨congrArg Option.isSome hplug, rfl⟩
    split
    · exact ⟨hhead, trivial⟩
    · split
      · exact ⟨hhead, trivial⟩
      · rename_i v hn
        have hnote : Holds w₁ v := noteBody_holds hn
        exact ⟨hhead.trans hnote, trivial⟩

/-- What a turn of `PX_RECV_HDR` leaves. -/
theorem recvHdrTurn_holds (hlive : w.px.fd.isSome = true) : TurnHolds w (w.recvHdrTurn now b) := by
  unfold recvHdrTurn
  split
  · obtain ⟨hhead, hexit⟩ := headTurn_holds w b _
    exact .of_holds hlive hhead hexit
  split
  · exact .of_holds hlive (.refl w) trivial
  extract_lets -lift r w₁
  have hlive₁ : w₁.px.fd.isSome = true := hlive
  have hread : Holds w w₁ := ⟨rfl, rfl⟩
  split
  · exact .of_holds hlive hread trivial
  · exact (retryOrFail_holds hlive₁).after hread
  · exact (retryOrFail_holds hlive₁).after hread
  · exact .of_holds hlive hread rfl
  · extract_lets w₂
    have hgot : Holds w w₂ := ⟨rfl, rfl⟩
    split
    · obtain ⟨hhead, hexit⟩ := headTurn_holds w₂ (b - 1) _
      exact .of_holds hlive (hgot.trans hhead) hexit
    split
    · exact .of_holds hlive hgot trivial
    · exact .of_holds hlive hgot trivial

theorem clientDead_holds (w : World) : Holds w w.clientDead.1 ∧ Yields w.clientDead.2 := by
  unfold clientDead
  split
  · exact ⟨.refl w, trivial⟩
  · exact ⟨.refl w, trivial⟩

/-- What a gathered send leaves. -/
theorem sendGatheredTurn_holds (w : World) (now b : Nat) :
    Holds w (w.sendGatheredTurn now b).1 ∧ Yields (w.sendGatheredTurn now b).2 := by
  unfold sendGatheredTurn
  extract_lets head data r w₁ src w₂ w₃
  split
  · exact ⟨.refl w, trivial⟩
  split
  · exact clientDead_holds w₁
  · exact ⟨⟨rfl, rfl⟩, rfl⟩
  · have hsent : Holds w₂ w₃ := (markSent_holds w₂ r.1).trans (moved_holds _ now r.1)
    split
    · exact ⟨hsent, trivial⟩
    · exact ⟨hsent, trivial⟩

theorem sendRespNext_holds (w : World) (b : Nat) :
    Holds w (w.sendRespNext b).1 ∧ Yields (w.sendRespNext b).2 := by
  unfold sendRespNext
  split
  · exact ⟨.refl w, trivial⟩
  · exact ⟨⟨rfl, rfl⟩, trivial⟩

theorem sendRespTurn_holds (w : World) (now b : Nat) :
    Holds w (w.sendRespTurn now b).1 ∧ Yields (w.sendRespTurn now b).2 := by
  unfold sendRespTurn
  split
  · exact sendGatheredTurn_holds w now b
  extract_lets w₁ r src w₂ w₃
  have hcork : Holds w w₁ := .of_relay (w.corkClient_relay true)
  split
  · have hmark : Holds w₁ w₃ := markSent_holds w₂ r.1
    have hmoved : Holds w₁ (w₃.moved now r.1) := hmark.trans (moved_holds w₃ now r.1)
    split
    · obtain ⟨hdead, hexit⟩ := clientDead_holds w₃
      exact ⟨(hcork.trans hmark).trans hdead, hexit⟩
    · exact ⟨hcork.trans hmoved, rfl⟩
    · obtain ⟨hnext, hexit⟩ := sendRespNext_holds (w₃.moved now r.1) (spend b r.1)
      exact ⟨(hcork.trans hmoved).trans hnext, hexit⟩
  · obtain ⟨hnext, hexit⟩ := sendRespNext_holds w₁ b
    exact ⟨hcork.trans hnext, hexit⟩

theorem streamTurn_holds (w : World) (now b : Nat) :
    Holds w (w.streamTurn now b).1 ∧ Yields (w.streamTurn now b).2 := by
  unfold streamTurn
  split
  · extract_lets r src w₁ w₂ src' w₃
    have hsent : Holds w w₂ := (markSent_holds w₁ r.1).trans (moved_holds _ now r.1)
    split
    · exact ⟨⟨rfl, rfl⟩, trivial⟩
    · exact ⟨hsent, rfl⟩
    · split
      · exact ⟨hsent, trivial⟩
      · exact ⟨hsent, trivial⟩
  split
  · exact ⟨.refl w, trivial⟩
  extract_lets cap src flags r w₁ src'
  split
  · exact ⟨⟨rfl, rfl⟩, trivial⟩
  split
  · exact ⟨⟨rfl, rfl⟩, trivial⟩
  · exact ⟨⟨rfl, rfl⟩, trivial⟩
  · split
    · exact ⟨⟨rfl, rfl⟩, trivial⟩
    · exact ⟨⟨rfl, rfl⟩, trivial⟩
  · exact ⟨⟨rfl, rfl⟩, rfl⟩
  · split
    · exact ⟨⟨rfl, rfl⟩, trivial⟩
    · rename_i v hn
      have hnote : Holds _ v := noteBody_holds hn
      exact ⟨hnote, trivial⟩

theorem phaseTurn_holds (hlive : w.px.fd.isSome = true) : TurnHolds w (w.phaseTurn now b) := by
  have hof : ∀ {r : World × Exit}, Holds w r.1 ∧ Yields r.2 → TurnHolds w r :=
    fun h => .of_holds hlive h.1 h.2
  unfold phaseTurn
  cases w.px.phase with
  | none => exact hof ⟨.refl w, trivial⟩
  | sendReq => exact sendReqTurn_holds hlive
  | sendBody => exact hof (sendBodyTurn_holds w now b)
  | recvHdr => exact recvHdrTurn_holds hlive
  | sendResp => exact hof (sendRespTurn_holds w now b)
  | stream => exact hof (streamTurn_holds w now b)

theorem flush100_holds (w : World) : Holds w w.flush100.2 := by
  unfold flush100
  split
  · exact .refl w
  extract_lets r src w₁
  split
  · exact ⟨rfl, rfl⟩
  · exact ⟨rfl, rfl⟩

theorem pumpTurn_holds (hlive : w.px.fd.isSome = true) : TurnHolds w (w.pumpTurn now b) := by
  have hflush := flush100_holds w
  unfold pumpTurn
  extract_lets f
  have hlive₁ : f.2.px.fd.isSome = true := hflush.1.trans hlive
  split
  · exact .of_holds hlive hflush trivial
  · exact .of_holds hlive hflush rfl
  split
  · refine .of_holds hlive hflush ?_
    rcases budgetExit_cases f.2 with ⟨u, c, hexit, hc⟩ | hexit
    · show Yields f.2.budgetExit
      rw [hexit]
      exact hc
    · show Yields f.2.budgetExit
      rw [hexit]
      trivial
  · exact (phaseTurn_holds hlive₁).after hflush

/-! ## Results -/

/-- `proxy_fail` closes the upstream socket. -/
theorem proxyFail_ends (w v : World) (now : Nat) :
    Ends w (v.proxyFail now).1 (v.proxyFail now).2 := by
  have hup : v.proxyClose.px.fd = none := proxyClose_fd v
  unfold proxyFail
  extract_lets sent v₁
  split
  · exact .close _ hup
  · exact .answer _ hup rfl

theorem proxyRelease_fd (w : World) (fd : Nat) : (w.proxyRelease fd).px.fd = none := by
  unfold proxyRelease
  extract_lets addr len w₁ w₂
  split
  · rfl
  · rfl

theorem proxyDone_fd (w : World) : w.proxyDone.2.px.fd = none := by
  unfold proxyDone
  extract_lets code keep w₁ w₂
  show w₂.px.fd = none
  unfold w₂
  split
  · split
    · exact proxyRelease_fd w₁ _
    · exact proxyClose_fd w₁
  · exact proxyClose_fd w₁

theorem leave_ends {e : Exit} {io : HttpIo} {u : World} (hphase : v.hc.phase = w.hc.phase)
    (hup : e ≠ .fail → v.px.fd.isSome = true) (hexit : Yields e)
    (h : v.leave now e = some (io, u)) : Ends w io u := by
  cases e with
  | again => cases h
  | fail =>
      have hv : v.proxyFail now = (io, u) := Option.some.inj h
      have hends := proxyFail_ends w v now
      rw [hv] at hends
      exact hends
  | close =>
      obtain ⟨rfl, rfl⟩ := Prod.mk.inj (Option.some.inj h)
      exact .close _ (proxyClose_fd v)
  | done =>
      have hv : v.proxyDone = (io, u) := Option.some.inj h
      obtain rfl : HttpIo.done = io := congrArg Prod.fst hv
      obtain rfl : v.proxyDone.2 = u := congrArg Prod.snd hv
      exact .done _ (proxyDone_fd v)
  | ret io' =>
      obtain ⟨rfl, rfl⟩ := Prod.mk.inj (Option.some.inj h)
      exact .waits _ _ hexit (hup nofun) hphase
  | yield up client =>
      obtain ⟨hrel, hresult⟩ := yieldUp_relay v up client
      have hholds : Holds v (v.yieldUp up client).2 := .of_relay hrel
      unfold leave at h
      simp only at h
      split at h
      · have hv : (v.yieldUp up client).2.proxyFail now = (io, u) := Option.some.inj h
        have hends := proxyFail_ends w (v.yieldUp up client).2 now
        rw [hv] at hends
        exact hends
      · rename_i io' hio
        obtain ⟨rfl, rfl⟩ := Prod.mk.inj (Option.some.inj h)
        have hyields : io'.yields = true := by
          rw [hio] at hresult
          rcases hresult with hnone | hwrite | hclient
          · cases hnone
          · rw [Option.some.inj hwrite]
            rfl
          · rw [Option.some.inj hclient]
            exact hexit
        exact .waits _ _ hyields (hholds.1.trans (hup nofun)) (hholds.2.trans hphase)

theorem Ends.of_phase {io : HttpIo} {u : World} (hphase : v.hc.phase = w.hc.phase) (h : Ends v io u) :
    Ends w io u := by
  cases h with
  | waits _ _ hio hup hread => exact .waits _ _ hio hup (hread.trans hphase)
  | done _ hup => exact .done _ hup
  | close _ hup => exact .close _ hup
  | answer _ hup hwrite => exact .answer _ hup hwrite

theorem pumpLoop_ends {io : HttpIo} (n : Nat) : ∀ {b : Nat} {w : World},
    w.px.fd.isSome = true → pumpLoop now n b w = some (io, v) → Ends w io v := by
  induction n with
  | zero =>
      intro _ _ _ h
      cases h
  | succ n ih =>
      intro b w hlive h
      have hturn : TurnHolds w (w.pumpTurn now b) := pumpTurn_holds hlive
      rw [pumpLoop] at h
      rcases hr : w.pumpTurn now b with ⟨u, e⟩
      rw [hr] at h hturn
      split at h
      · rename_i heq
        cases heq
        exact (ih (hturn.up (by rintro ⟨⟩)) h).of_phase hturn.phase
      · rename_i heq
        cases heq
        exact leave_ends hturn.phase hturn.up hturn.yields h

/-- `proxy_pump`. -/
theorem proxyPump_ends {fuel : Nat} {io : HttpIo} (h : w.proxyPump fuel now = some (io, v)) :
    Ends w io v := by
  unfold proxyPump pumpEntry at h
  by_cases hfd : w.px.fd = none
  · rw [if_pos hfd] at h
    obtain ⟨rfl, rfl⟩ := Prod.mk.inj (Option.some.inj h)
    exact .close _ hfd
  by_cases hdead : w.hc.deadlineMs ≤ now
  · rw [if_neg hfd, if_pos hdead] at h
    obtain ⟨rfl, rfl⟩ := Prod.mk.inj (Option.some.inj h)
    exact .close _ (proxyClose_fd w)
  · rw [if_neg hfd, if_neg hdead] at h
    exact pumpLoop_ends fuel (Option.isSome_iff_ne_none.2 hfd) h

/-- What the start of an exchange leaves. -/
def StartEnds (w : World) : Except (HttpIo × World) World → Prop
  | .error r => Ends w r.1 r.2
  | .ok v => v.hc.phase = w.hc.phase

theorem beginOn_ends (hphase : v.hc.phase = w.hc.phase) (fd : Nat) (reused : Bool) :
    StartEnds w (beginOn v fd reused now) := by
  unfold beginOn
  extract_lets src flags w₁ w₂ c w₃
  have hcork : w₂.hc.phase = w₁.hc.phase := by
    unfold w₂
    split
    · exact congrArg Relay.clientPhase (w₁.corkUp_relay true)
    · rfl
  split
  · exact proxyFail_ends w w₃ now
  · exact hcork.trans hphase

theorem proxySetup_ends (hidle : w.px.fd = none) (addr : List UInt8) (len : Nat) :
    StartEnds w (proxySetup w addr len now) := by
  unfold proxySetup
  extract_lets req wrapped
  split
  · exact .answer _ hidle rfl
  split
  · exact .answer _ hidle rfl
  split
  · exact .answer _ rfl rfl
  extract_lets w₁ s
  split
  · apply beginOn_ends
    rfl
  split
  · exact .answer _ rfl rfl
  · apply beginOn_ends
    rfl

/-- `proxy_begin`. -/
theorem proxyBegin_ends {fuel : Nat} {addr : List UInt8} {len : Nat} {io : HttpIo}
    (hidle : w.px.fd = none) (h : w.proxyBegin fuel addr len now = some (io, v)) : Ends w io v := by
  have hsetup : StartEnds w (w.proxySetup addr len now) := proxySetup_ends hidle addr len
  unfold proxyBegin at h
  split at h
  · rename_i r hr
    rw [hr, Option.some.inj h] at hsetup
    exact hsetup
  · rename_i u hu
    rw [hu] at hsetup
    exact (proxyPump_ends h).of_phase hsetup

end Turns

end World

end TinyServer.Proxy
