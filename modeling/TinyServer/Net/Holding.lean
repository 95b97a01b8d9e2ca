import TinyServer.Lib.Handles
import TinyServer.Net.Descriptors

/-!
# Who has which descriptor

The descriptors of a worker sit in places, each with the uses that are counted for it,
and a slot can hold one that sits in a place of the worker. `Move` lists what can happen
to them while the slot `j` is handled, with the control calls that are made. Moves keep
the ledger `Sound`: no descriptor is in two places, the counts are right, and what is
held is open.
-/

set_option autoImplicit false

namespace TinyServer.Net

open TinyServer.Lib

/-- Descriptors in places of the type `ι`, what each slot holds, and the descriptors that
were lost. -/
@[ext] structure Holding (ι : Type) where
  place : ι → Option (Nat × Nat)
  held : Nat → Option Nat
  dropped : List Nat

/-- The call brings the descriptor `fd`. -/
def ControlCall.Brings (c : ControlCall) (fd : Nat) (kind : FdKind) : Prop :=
  c.opened = some fd ∧ ∀ opens, afterCall opens c = Function.update opens fd (some kind)

/-- How many of the first `n` slots hold `fd`. -/
def holdersOf (held : Nat → Option Nat) (n fd : Nat) : Nat :=
  (List.range n).countP fun j => decide (held j = some fd)

section Holders

variable (held : Nat → Option Nat) (fd : Nat)

/-- The holders among one more connection. -/
theorem holdersOf_succ (n : Nat) :
    holdersOf held (n + 1) fd = holdersOf held n fd + if held n = some fd then 1 else 0 := by
  unfold holdersOf
  rw [List.range_succ, List.countP_append, List.countP_singleton]
  simp only [decide_eq_true_eq]

/-- The holders depend on what the connections hold. -/
theorem holdersOf_congr {held held' : Nat → Option Nat} {n : Nat}
    (h : ∀ k, k < n → held k = held' k) : holdersOf held n fd = holdersOf held' n fd := by
  unfold holdersOf
  apply List.countP_congr
  intro k hk
  rw [h k (List.mem_range.1 hk)]

/-- One slot changes what it holds. -/
theorem holdersOf_update (j : Nat) (v : Option Nat) {n : Nat} (hj : j < n) :
    holdersOf (Function.update held j v) n fd + (if held j = some fd then 1 else 0) =
      holdersOf held n fd + if v = some fd then 1 else 0 := by
  induction n with
  | zero => omega
  | succ n ih =>
      rw [holdersOf_succ, holdersOf_succ]
      by_cases hjn : j = n
      · rw [← hjn, Function.update_self]
        have hsame : holdersOf (Function.update held j v) j fd = holdersOf held j fd :=
          holdersOf_congr fd fun k hk => Function.update_of_ne (by omega) _ _
        rw [hsame]
        omega
      · have := ih (by omega)
        rw [Function.update_of_ne (Ne.symm hjn)]
        omega

variable {held} {j n : Nat}

/-- One more connection holds the descriptor. -/
theorem holdersOf_hold (hj : j < n) (hfree : held j = none) :
    holdersOf (Function.update held j (some fd)) n =
      Function.update (holdersOf held n) fd (holdersOf held n fd + 1) := by
  funext k
  have h := holdersOf_update held k j (some fd) hj
  rw [hfree, if_neg (by exact nofun)] at h
  by_cases hk : k = fd
  · rw [hk, Function.update_self]
    rw [hk, if_pos rfl] at h
    exact h
  · rw [Function.update_of_ne hk]
    rw [if_neg fun he => hk (Option.some.inj he).symm] at h
    exact h

/-- One connection less holds it. -/
theorem holdersOf_release (hj : j < n) (hheld : held j = some fd) :
    holdersOf (Function.update held j none) n =
      Function.update (holdersOf held n) fd (holdersOf held n fd - 1) := by
  funext k
  have h := holdersOf_update held k j none hj
  rw [hheld, if_neg (show ¬ none = some k by exact nofun)] at h
  by_cases hk : k = fd
  · rw [hk, Function.update_self]
    rw [hk, if_pos rfl] at h
    omega
  · rw [Function.update_of_ne hk]
    rw [if_neg fun he => hk (Option.some.inj he).symm] at h
    exact h

/-- A descriptor that is held has a holder. -/
theorem holdersOf_pos (hj : j < n) (hheld : held j = some fd) : 0 < holdersOf held n fd :=
  List.countP_pos_iff.2 ⟨j, List.mem_range.2 hj, decide_eq_true hheld⟩

/-- A slot that holds nothing leaves room below the number of slots. -/
theorem holdersOf_lt (hj : j < n) (hfree : held j = none) : holdersOf held n fd < n := by
  have hle : holdersOf (Function.update held j (some fd)) n fd ≤ (List.range n).length :=
    List.countP_le_length
  rw [holdersOf_hold fd hj hfree, Function.update_self, List.length_range] at hle
  omega

end Holders

namespace Holding

variable {ι : Type} [DecidableEq ι]

/-- What is at the place `p`. -/
def put (d : Holding ι) (p : ι) (v : Option (Nat × Nat)) : Holding ι :=
  { d with place := Function.update d.place p v }

/-- What the connection `j` holds. -/
def setHeld (d : Holding ι) (j : Nat) (v : Option Nat) : Holding ι :=
  { d with held := Function.update d.held j v }

omit [DecidableEq ι] in
theorem eq_of {d e : Holding ι} (hplace : ∀ p, d.place p = e.place p)
    (hheld : ∀ j, d.held j = e.held j) (hdropped : d.dropped = e.dropped) : d = e :=
  Holding.ext (funext hplace) (funext hheld) hdropped

theorem put_place_self (d : Holding ι) (p : ι) (v : Option (Nat × Nat)) :
    (d.put p v).place p = v := Function.update_self ..

theorem put_place_ne (d : Holding ι) {p q : ι} (v : Option (Nat × Nat)) (h : q ≠ p) :
    (d.put p v).place q = d.place q := Function.update_of_ne h _ _

/-- The last value that is put at a place counts. -/
theorem put_put (d : Holding ι) (p : ι) (v w : Option (Nat × Nat)) :
    (d.put p v).put p w = d.put p w := by
  unfold put
  rw [Function.update_idem]

/-- Two places do not disturb each other. -/
theorem put_comm (d : Holding ι) {p q : ι} (v w : Option (Nat × Nat)) (h : p ≠ q) :
    (d.put p v).put q w = (d.put q w).put p v := by
  unfold put
  rw [Function.update_comm h]

theorem put_same (d : Holding ι) {p : ι} {v : Option (Nat × Nat)} (h : d.place p = v) :
    d.put p v = d := by
  unfold put
  rw [← h, Function.update_eq_self]

/-- What can happen while the slot `j` is handled. A count stops at `limit`. -/
inductive Move (tag : ι → FdKind) (limit j : Nat) :
    Holding ι → List ControlCall → Holding ι → Prop
  | quiet (d : Holding ι) (c : ControlCall) (hc : c.Quiet) : Move tag limit j d [c] d
  | bring (d : Holding ι) (c : ControlCall) (p : ι) (fd : Nat) (hc : c.Brings fd (tag p))
      (hfree : d.place p = none) : Move tag limit j d [c] (d.put p (some (fd, 0)))
  | close (d : Holding ι) (p : ι) (fd : Nat) (hp : d.place p = some (fd, 0)) :
      Move tag limit j d [.close fd] (d.put p none)
  | move (d : Holding ι) (p q : ι) (hq : d.place q = none) (htag : tag q = tag p) :
      Move tag limit j d [] ((d.put q (d.place p)).put p none)
  | lose (d : Holding ι) (p : ι) (fd n : Nat) (hp : d.place p = some (fd, n))
      (htag : tag p = .file) :
      Move tag limit j d [] { d.put p none with dropped := d.dropped ++ [fd] }
  | forget (d : Holding ι) (p : ι) (htag : tag p = .upstream) :
      Move tag limit j d [] (d.put p none)
  | hold (d : Holding ι) (p : ι) (fd n : Nat) (hp : d.place p = some (fd, n))
      (htag : tag p = .file) (hfree : d.held j = none) (hlt : n < limit) :
      Move tag limit j d [] ((d.put p (some (fd, n + 1))).setHeld j (some fd))
  | holdFull (d : Holding ι) (p : ι) (fd n : Nat) (hp : d.place p = some (fd, n))
      (htag : tag p = .file) (hfree : d.held j = none) (hfull : limit ≤ n) :
      Move tag limit j d [] (d.setHeld j (some fd))
  | release (d : Holding ι) (p : ι) (fd n : Nat) (hp : d.place p = some (fd, n))
      (hheld : d.held j = some fd) :
      Move tag limit j d [] ((d.put p (some (fd, n - 1))).setHeld j none)
  | releaseLost (d : Holding ι) (fd : Nat) (hheld : d.held j = some fd)
      (hno : ∀ p n, d.place p = some (fd, n) → n = 0) : Move tag limit j d [] (d.setHeld j none)

/-- A sequence of moves, with all their calls. -/
inductive Moves (tag : ι → FdKind) (limit j : Nat) :
    Holding ι → List ControlCall → Holding ι → Prop
  | refl (d : Holding ι) : Moves tag limit j d [] d
  | tail {d e f : Holding ι} {cs cs' : List ControlCall} (hs : Moves tag limit j d cs e)
      (h : Move tag limit j e cs' f) : Moves tag limit j d (cs ++ cs') f

/-- The ledger of `n` slots and the open descriptors agree. -/
structure Sound (tag : ι → FdKind) (n : Nat) (opens : Nat → Option FdKind) (d : Holding ι) :
    Prop where
  counted : Counted tag .file d.place (holdersOf d.held n) opens
  covered : Covered FdKind.file d.place opens (· ∈ d.dropped)

section Moves

variable {tag : ι → FdKind} {limit j : Nat} {d e f : Holding ι} {cs cs' : List ControlCall}

theorem Move.moves (h : Move tag limit j d cs e) : Moves tag limit j d cs e := by
  have := Moves.tail (.refl d) h
  rw [List.nil_append] at this
  exact this

/-- Moves, one after the other. -/
theorem Moves.trans (h : Moves tag limit j d cs e) (h' : Moves tag limit j e cs' f) :
    Moves tag limit j d (cs ++ cs') f := by
  induction h' with
  | refl => rw [List.append_nil]; exact h
  | tail _ hm ih =>
      rw [← List.append_assoc]
      exact .tail ih hm

variable {n : Nat} {opens : Nat → Option FdKind}

omit [DecidableEq ι] in
/-- A count is below the number of slots while a slot holds nothing. -/
theorem Sound.count_lt (hd : Sound tag n opens d) (hj : j < n) (hfree : d.held j = none)
    {p : ι} {fd m : Nat} (hp : d.place p = some (fd, m)) : m < n := by
  rw [hd.counted.count p fd m hp]
  exact holdersOf_lt fd hj hfree

/-- A descriptor that nobody holds is closed. -/
theorem Sound.close (hd : Sound tag n opens d) {p : ι} {fd : Nat} (hp : d.place p = some (fd, 0)) :
    Sound tag n (Function.update opens fd none) (d.put p none) :=
  ⟨hd.counted.close hp, hd.covered.close hp⟩

/-- The step lemma. -/
theorem Move.sound (h : Move tag limit j d cs e) (hj : j < n) (hn : n ≤ limit)
    (hd : Sound tag n opens d) (hfresh : FreshAfter opens cs) :
    Sound tag n (afterCalls opens cs) e := by
  cases h with
  | quiet c hc =>
      rw [afterCalls_singleton, afterCall_quiet hc]
      exact hd
  | bring c p fd hc hfree =>
      rw [afterCalls_singleton, hc.2]
      have hnew : opens fd = none := hfresh.1 fd hc.1
      exact ⟨hd.counted.insert hnew, hd.covered.insert hfree _⟩
  | close p fd hp => exact hd.close hp
  | move p q hq htag => exact ⟨hd.counted.move htag, hd.covered.move hq⟩
  | lose p fd m hp _ =>
      refine ⟨hd.counted.lose, ?_⟩
      have hlost := hd.covered.lose hp
      intro k hk
      rcases hlost k hk with hplace | hold | hnew
      · exact Or.inl hplace
      · exact Or.inr (List.mem_append_left _ hold)
      · exact Or.inr (List.mem_append_right _ (List.mem_singleton.2 hnew))
  | forget p htag => exact ⟨hd.counted.lose, hd.covered.drop hd.counted (by rw [htag]; exact nofun)⟩
  | hold p fd m hp htag hfree hlt =>
      refine ⟨?_, hd.covered.recount hp _⟩
      have hc := hd.counted.hold hp htag
      rw [← holdersOf_hold fd hj hfree] at hc
      exact hc
  | holdFull p fd m hp htag hfree hfull =>
      have := hd.count_lt hj hfree hp
      omega
  | release p fd m hp hheld =>
      refine ⟨?_, hd.covered.recount hp _⟩
      have hc := hd.counted.release hp
      rw [← holdersOf_release fd hj hheld] at hc
      exact hc
  | releaseLost fd hheld hno =>
      refine ⟨?_, hd.covered⟩
      have hpos := holdersOf_pos fd hj hheld
      have hc := hd.counted.releaseLost (k := fd) fun p m hp => by
        have hcount := hd.counted.count p fd m hp
        rw [hno p m hp] at hcount
        omega
      rw [← holdersOf_release fd hj hheld] at hc
      exact hc

/-- The counts are right after some moves. -/
theorem Moves.sound (h : Moves tag limit j d cs e) (hj : j < n) (hn : n ≤ limit)
    (hd : Sound tag n opens d) (hfresh : FreshAfter opens cs) :
    Sound tag n (afterCalls opens cs) e := by
  induction h with
  | refl => exact hd
  | tail _ hm ih =>
      rw [freshAfter_append] at hfresh
      rw [afterCalls_append]
      exact hm.sound hj hn (ih hfresh.1) hfresh.2

/-- A move concerns one connection. -/
theorem Move.held_other (h : Move tag limit j d cs e) {k : Nat} (hk : k ≠ j) :
    e.held k = d.held k := by
  cases h with
  | hold | holdFull | release | releaseLost => exact Function.update_of_ne hk _ _
  | quiet | bring | close | move | lose | forget => rfl

/-- Moves concern one connection. -/
theorem Moves.held_other (h : Moves tag limit j d cs e) {k : Nat} (hk : k ≠ j) :
    e.held k = d.held k := by
  induction h with
  | refl => rfl
  | tail _ hm ih => exact (hm.held_other hk).trans ih

/-- What another slot holds is not closed. -/
theorem Move.closed (h : Move tag limit j d cs e) (hd : Sound tag n opens d) {k fd : Nat}
    (hk : k < n) (hheld : d.held k = some fd) : ControlCall.close fd ∉ cs := by
  cases h with
  | quiet c hc => exact fun hmem => hc.2 fd (List.mem_singleton.1 hmem).symm
  | bring c p fd' hc hfree =>
      intro hmem
      rw [← List.mem_singleton.1 hmem] at hc
      cases hc.1
  | close p fd' hp =>
      intro hmem
      cases List.mem_singleton.1 hmem
      have hcount := hd.counted.count p fd 0 hp
      have := holdersOf_pos fd hk hheld
      omega
  | move | lose | forget | hold | holdFull | release | releaseLost => exact List.not_mem_nil

/-- What another connection holds is not closed. -/
theorem Moves.closed (h : Moves tag limit j d cs e) (hj : j < n) (hn : n ≤ limit)
    (hd : Sound tag n opens d) (hfresh : FreshAfter opens cs) {k fd : Nat} (hk : k < n)
    (hkj : k ≠ j) (hheld : d.held k = some fd) : ControlCall.close fd ∉ cs := by
  induction h with
  | refl => exact List.not_mem_nil
  | tail hs hm ih =>
      rw [freshAfter_append] at hfresh
      rw [List.mem_append, not_or]
      refine ⟨ih hfresh.1, ?_⟩
      exact hm.closed (hs.sound hj hn hd hfresh.1) hk ((hs.held_other hkj).trans hheld)

/-- Every open client socket has a place. -/
def Placed (opens : Nat → Option FdKind) (d : Holding ι) : Prop :=
  Covered FdKind.client d.place opens fun _ => False

/-- No client socket leaves its place without being closed. -/
theorem Move.placed (h : Move tag limit j d cs e) (hd : Sound tag n opens d)
    (hp : Placed opens d) : Placed (afterCalls opens cs) e := by
  cases h with
  | quiet c hc =>
      rw [afterCalls_singleton, afterCall_quiet hc]
      exact hp
  | bring c p fd hc hfree =>
      rw [afterCalls_singleton, hc.2]
      exact Covered.insert hp hfree _
  | close p fd hpl => exact Covered.close hp hpl
  | move p q hq htag => exact Covered.move hp hq
  | lose p fd m hpl htag => exact Covered.drop hp hd.counted (by rw [htag]; exact nofun)
  | forget p htag => exact Covered.drop hp hd.counted (by rw [htag]; exact nofun)
  | hold p fd m hpl htag hfree hlt => exact Covered.recount hp hpl _
  | holdFull p fd m hpl htag hfree hfull => exact hp
  | release p fd m hpl hheld => exact Covered.recount hp hpl _
  | releaseLost fd hheld hno => exact hp

/-- Every descriptor that is open has a place after the moves. -/
theorem Moves.placed (h : Moves tag limit j d cs e) (hj : j < n) (hn : n ≤ limit)
    (hd : Sound tag n opens d) (hfresh : FreshAfter opens cs) (hp : Placed opens d) :
    Placed (afterCalls opens cs) e := by
  induction h with
  | refl => exact hp
  | tail hs hm ih =>
      rw [freshAfter_append] at hfresh
      rw [afterCalls_append]
      exact hm.placed (hs.sound hj hn hd hfresh.1) (ih hfresh.1)

/-- Only open descriptors are closed. -/
theorem Move.closesOpen (h : Move tag limit j d cs e) (hd : Sound tag n opens d) :
    ClosesOpen opens cs := by
  cases h with
  | quiet c hc => exact ⟨fun fd he => absurd he (hc.2 fd), trivial⟩
  | bring c p fd hc hfree =>
      refine ⟨fun fd' he => ?_, trivial⟩
      rw [he] at hc
      cases hc.1
  | close p fd hp =>
      refine ⟨fun fd' he => ?_, trivial⟩
      cases he
      rw [hd.counted.isOpen p fd 0 hp]
      exact nofun
  | move | lose | forget | hold | holdFull | release | releaseLost => trivial

/-- The moves close only what is open. -/
theorem Moves.closesOpen (h : Moves tag limit j d cs e) (hj : j < n) (hn : n ≤ limit)
    (hd : Sound tag n opens d) (hfresh : FreshAfter opens cs) : ClosesOpen opens cs := by
  induction h with
  | refl => trivial
  | tail hs hm ih =>
      rw [freshAfter_append] at hfresh
      exact (closesOpen_append _ _ _).2
        ⟨ih hfresh.1, hm.closesOpen (hs.sound hj hn hd hfresh.1)⟩

end Moves

/-! ## Giving everything up -/

/-- Descriptors that nobody uses are closed one after the other. -/
inductive Sheds : Holding ι → List ControlCall → Holding ι → Prop
  | refl (d : Holding ι) : Sheds d [] d
  | close {d e : Holding ι} {cs : List ControlCall} (h : Sheds d cs e) (p : ι) (fd : Nat)
      (hp : e.place p = some (fd, 0)) : Sheds d (cs ++ [.close fd]) (e.put p none)

/-- Nobody uses the descriptors. -/
def Unused (d : Holding ι) : Prop := ∀ p fd m, d.place p = some (fd, m) → m = 0

section Sheds

variable {tag : ι → FdKind} {n : Nat} {opens : Nat → Option FdKind} {d e f : Holding ι}
  {cs cs' : List ControlCall}

theorem Unused.put (h : Unused d) (p : ι) : Unused (d.put p none) := by
  intro q fd m hq
  by_cases hqp : q = p
  · rw [hqp, put_place_self] at hq
    cases hq
  · rw [put_place_ne _ _ hqp] at hq
    exact h q fd m hq

/-- Nothing is in use after the shedding. -/
theorem Sheds.unused (h : Sheds d cs e) (hd : Unused d) : Unused e := by
  induction h with
  | refl => exact hd
  | close _ p fd hp ih => exact ih.put p

theorem Sheds.trans (h : Sheds d cs e) (h' : Sheds e cs' f) : Sheds d (cs ++ cs') f := by
  induction h' with
  | refl =>
      rw [List.append_nil]
      exact h
  | close _ p fd hp ih =>
      rw [← List.append_assoc]
      exact ih.close p fd hp

/-- The counts are right after the shedding. -/
theorem Sheds.sound (h : Sheds d cs e) (hd : Sound tag n opens d) :
    Sound tag n (afterCalls opens cs) e := by
  induction h with
  | refl => exact hd
  | close _ p fd hp ih =>
      rw [afterCalls_append]
      exact ih.close hp

/-- Every descriptor that is still open has a place. -/
theorem Sheds.placed (h : Sheds d cs e) (hp : Placed opens d) :
    Placed (afterCalls opens cs) e := by
  induction h with
  | refl => exact hp
  | close _ p fd hpl ih =>
      rw [afterCalls_append]
      exact Covered.close ih hpl

/-- Only what is open is closed. -/
theorem Sheds.closesOpen (h : Sheds d cs e) (hd : Sound tag n opens d) : ClosesOpen opens cs := by
  induction h with
  | refl => trivial
  | close hs p fd hp ih =>
      refine (closesOpen_append _ _ _).2 ⟨ih, fun fd' he => ?_, trivial⟩
      cases he
      rw [(hs.sound hd).counted.isOpen p fd 0 hp]
      exact nofun

/-- Nothing but files is shed. -/
theorem Sheds.files (h : Sheds d cs e) : ∀ c ∈ cs, c.files = true := by
  induction h with
  | refl => exact nofun
  | close _ p fd hp ih =>
      intro c hc
      rcases List.mem_append.1 hc with hc | hc
      · exact ih c hc
      · rw [List.mem_singleton.1 hc]
        rfl

end Sheds

end Holding

end TinyServer.Net
