import TinyServer.Net.Descriptors

/-!
# Registered descriptors

What the record of control calls says about the epoll instance of a worker: which
descriptors are registered and for which events. Closing a descriptor takes it out, and
`EPOLL_CTL_DEL` works on every descriptor that is registered (`DelsWork`).
-/

set_option autoImplicit false

namespace TinyServer.Net

/-- What is registered after a call. -/
def afterCtl (reg : Nat → Option Interest) : ControlCall → Nat → Option Interest
  | .epollCtl fd (.add interest) true => Function.update reg fd (some interest)
  | .epollCtl fd (.mod interest) true => Function.update reg fd (some interest)
  | .epollCtl fd .del true => Function.update reg fd none
  | .close fd => Function.update reg fd none
  | _ => reg

/-- What is registered after some calls. -/
def afterCtls (reg : Nat → Option Interest) (calls : List ControlCall) : Nat → Option Interest :=
  calls.foldl afterCtl reg

/-- What is registered after the calls of a worker. -/
def registered (calls : List ControlCall) : Nat → Option Interest := afterCtls (fun _ => none) calls

namespace ControlCall

/-- The descriptor whose registration a call can change. -/
def touched : ControlCall → Option Nat
  | epollCtl fd _ _ => some fd
  | close fd => some fd
  | _ => none

/-- The descriptor that a call fails to take out. -/
def delFails : ControlCall → Option Nat
  | epollCtl fd .del false => some fd
  | _ => none

end ControlCall

/-- `EPOLL_CTL_DEL` does not fail for a descriptor that is registered. -/
def DelsWork : (Nat → Option Interest) → List ControlCall → Prop
  | _, [] => True
  | reg, c :: cs => (∀ fd, c.delFails = some fd → reg fd = none) ∧ DelsWork (afterCtl reg c) cs

instance DelsWork.decidable : ∀ (reg : Nat → Option Interest) (cs : List ControlCall),
    Decidable (DelsWork reg cs)
  | _, [] => isTrue trivial
  | reg, c :: cs =>
      have : Decidable (DelsWork (afterCtl reg c) cs) := DelsWork.decidable _ cs
      have : Decidable (∀ fd, c.delFails = some fd → reg fd = none) :=
        decidable_of_iff (∀ fd ∈ c.delFails, reg fd = none) (by simp only [Option.mem_def])
      inferInstanceAs (Decidable (_ ∧ _))

/-- What the kernel promises about the calls of a worker. -/
structure Promised (calls : List ControlCall) : Prop where
  fresh : FreshCalls calls
  dels : DelsWork (fun _ => none) calls

instance Promised.decidable (calls : List ControlCall) : Decidable (Promised calls) :=
  decidable_of_iff (FreshCalls calls ∧ DelsWork (fun _ => none) calls)
    ⟨fun h => ⟨h.1, h.2⟩, fun h => ⟨h.fresh, h.dels⟩⟩

variable {reg : Nat → Option Interest} {opens : Nat → Option FdKind}

/-- A call concerns one descriptor. -/
theorem afterCtl_other {c : ControlCall} {fd : Nat} (h : c.touched ≠ some fd) :
    afterCtl reg c fd = reg fd := by
  have hne : ∀ {k : Nat}, some k ≠ some fd → ∀ v, Function.update reg k v fd = reg fd :=
    fun hk _ => Function.update_of_ne (fun he => hk (congrArg some he.symm)) _ _
  cases c with
  | accept | openFile | socket | connect | cork => rfl
  | close k => exact hne h _
  | epollCtl k op ok =>
      cases ok with
      | false => cases op <;> rfl
      | true =>
          cases op with
          | add | mod | del => exact hne h _

theorem afterCtls_append (as bs : List ControlCall) :
    afterCtls reg (as ++ bs) = afterCtls (afterCtls reg as) bs := List.foldl_append

theorem registered_append (as bs : List ControlCall) :
    registered (as ++ bs) = afterCtls (registered as) bs := afterCtls_append as bs

/-- What is registered after one more call. -/
theorem registered_one (as : List ControlCall) (c : ControlCall) :
    registered (as ++ [c]) = afterCtl (registered as) c := registered_append as [c]

/-- Deregistrations that work, part by part. -/
theorem delsWork_append (as bs : List ControlCall) : ∀ reg : Nat → Option Interest,
    DelsWork reg (as ++ bs) ↔ DelsWork reg as ∧ DelsWork (afterCtls reg as) bs := by
  induction as with
  | nil => exact fun _ => ⟨fun h => ⟨trivial, h⟩, fun h => h.2⟩
  | cons c as ih =>
      intro reg
      rw [List.cons_append, DelsWork, DelsWork, ih, and_assoc]
      exact Iff.rfl

/-- What is promised about calls is promised about the first of them, and about the rest. -/
theorem Promised.append {as bs : List ControlCall} (h : Promised (as ++ bs)) :
    Promised as ∧ FreshAfter (openFds as) bs ∧ DelsWork (registered as) bs := by
  have hdels := (delsWork_append as bs _).1 h.dels
  exact ⟨⟨h.fresh.append.1, hdels.1⟩, h.fresh.append.2, hdels.2⟩

/-- A call that touches nothing leaves every registration. -/
theorem afterCtl_untouched {c : ControlCall} (h : c.touched = none) : afterCtl reg c = reg := by
  funext fd
  refine afterCtl_other ?_
  rw [h]
  exact nofun

/-! ## Open and registered -/

/-- Only open descriptors are registered. -/
def Live (reg : Nat → Option Interest) (opens : Nat → Option FdKind) : Prop :=
  ∀ fd, reg fd ≠ none → opens fd ≠ none

/-- What is registered is open, after one more call. -/
theorem Live.call (h : Live reg opens) {c : ControlCall}
    (hc : ∀ fd op ok, c = .epollCtl fd op ok → opens fd ≠ none) :
    Live (afterCtl reg c) (afterCall opens c) := by
  have hopen : ∀ {k : Nat} {kind : FdKind},
      Live reg (Function.update opens k (some kind)) := by
    intro k kind fd hreg
    by_cases hk : fd = k
    · rw [hk, Function.update_self]
      exact nofun
    · rw [Function.update_of_ne hk]
      exact h fd hreg
  have hctl : ∀ {k : Nat}, opens k ≠ none → ∀ v, Live (Function.update reg k v) opens := by
    intro k hk v fd hreg
    by_cases hfd : fd = k
    · rw [hfd]
      exact hk
    · rw [Function.update_of_ne hfd] at hreg
      exact h fd hreg
  cases c with
  | accept => exact hopen
  | openFile path k =>
      cases k with
      | none => exact h
      | some k => exact hopen
  | socket addr k =>
      cases k with
      | none => exact h
      | some k => exact hopen
  | connect | cork => exact h
  | close k =>
      intro fd hreg
      have hne : fd ≠ k := by
        rintro rfl
        exact hreg (Function.update_self ..)
      have hold : reg fd ≠ none := by
        rw [← Function.update_of_ne hne none reg]
        exact hreg
      show Function.update opens k none fd ≠ none
      rw [Function.update_of_ne hne]
      exact h fd hold
  | epollCtl k op ok =>
      have hk := hc k op ok rfl
      cases ok with
      | false => cases op <;> exact h
      | true => cases op <;> exact hctl hk _

/-- A number that the kernel gives anew is not registered. -/
theorem Live.fresh (h : Live reg opens) {fd : Nat} (hfd : opens fd = none) : reg fd = none := by
  by_contra hreg
  exact h fd hreg hfd

/-! ## Calls about files -/

section Files

variable {cs : List ControlCall}

/-- Files are not registered. -/
theorem Live.files (h : Live reg opens) (hfiles : ∀ c ∈ cs, c.files = true) :
    Live (afterCtls reg cs) (afterCalls opens cs) := by
  induction cs generalizing reg opens with
  | nil => exact h
  | cons c cs ih =>
      refine ih (h.call fun fd op ok hc => ?_) fun c' hc' => hfiles c' (List.mem_cons_of_mem c hc')
      have hc' := hfiles c List.mem_cons_self
      rw [hc] at hc'
      cases hc'

/-- What is closed or a file stays so. -/
theorem files_life {fd : Nat} (hfiles : ∀ c ∈ cs, c.files = true)
    (h : opens fd = none ∨ opens fd = some .file) :
    afterCalls opens cs fd = none ∨ afterCalls opens cs fd = some .file := by
  induction cs generalizing opens with
  | nil => exact h
  | cons c cs ih =>
      refine ih (fun c' hc' => hfiles c' (List.mem_cons_of_mem c hc')) ?_
      have hc := hfiles c List.mem_cons_self
      cases c with
      | accept | socket | connect | epollCtl => cases hc
      | cork => exact h
      | openFile path k =>
          cases k with
          | none => exact h
          | some k =>
              by_cases hk : fd = k
              · rw [hk]
                exact Or.inr (Function.update_self ..)
              · exact h.imp (Function.update_of_ne hk _ _).trans (Function.update_of_ne hk _ _).trans
      | close k =>
          by_cases hk : fd = k
          · rw [hk]
            exact Or.inl (Function.update_self ..)
          · exact h.imp (Function.update_of_ne hk _ _).trans (Function.update_of_ne hk _ _).trans

/-- Calls about files do not touch a socket that is open before and after. -/
theorem files_untouched {fd : Nat} {kind : FdKind} (hfiles : ∀ c ∈ cs, c.files = true)
    (hkind : kind ≠ .file) (hafter : afterCalls opens cs fd = some kind) :
    afterCtls reg cs fd = reg fd := by
  induction cs generalizing reg opens with
  | nil => rfl
  | cons c cs ih =>
      have hrest : ∀ c' ∈ cs, c'.files = true := fun c' hc' => hfiles c' (List.mem_cons_of_mem c hc')
      refine (ih hrest hafter).trans (afterCtl_other fun htouch => ?_)
      have hc := hfiles c List.mem_cons_self
      cases c with
      | accept | socket | connect | epollCtl => cases hc
      | openFile | cork => cases htouch
      | close k =>
          have hk : k = fd := Option.some.inj htouch
          have hgone : afterCall opens (.close k) fd = none := by
            rw [hk]
            exact Function.update_self ..
          rcases files_life hrest (Or.inl hgone) with h | h
          · rw [show afterCalls opens (.close k :: cs) fd = none from h] at hafter
            cases hafter
          · rw [show afterCalls opens (.close k :: cs) fd = some .file from h] at hafter
            exact hkind (Option.some.inj hafter).symm

end Files

end TinyServer.Net
