import Mathlib.Logic.Function.Basic
import TinyServer.Net.Sockets

/-!
# Open descriptors

What the record of control calls says about descriptors: which are open and what they
were opened as, which address a socket was connected to, and whether every new
descriptor had a number that was not in use.
-/

set_option autoImplicit false

namespace TinyServer.Net

/-- What a descriptor stands for. -/
inductive FdKind where
  | client
  | upstream
  | file
  deriving DecidableEq, Repr

namespace ControlCall

/-- The descriptor a call brings. -/
def opened : ControlCall → Option Nat
  | accept fd => some fd
  | openFile _ fd => fd
  | socket _ fd => fd
  | _ => none

/-- A call that brings no descriptor and ends none. -/
def Quiet (c : ControlCall) : Prop := c.opened = none ∧ ∀ fd, c ≠ close fd

/-- A call that makes or connects a socket. -/
def dials : ControlCall → Bool
  | socket _ _ => true
  | connect _ _ _ => true
  | _ => false

/-- A call that is about files: no socket is accepted, made, connected or registered. -/
def files : ControlCall → Bool
  | openFile _ _ => true
  | cork _ _ _ => true
  | close _ => true
  | _ => false

theorem dials_of_files {c : ControlCall} (h : c.files = true) : c.dials = false := by
  cases c with
  | openFile | cork | close => rfl
  | accept | socket | connect | epollCtl => cases h

end ControlCall

/-- The open descriptors after a call. -/
def afterCall (opens : Nat → Option FdKind) : ControlCall → Nat → Option FdKind
  | .accept fd => Function.update opens fd (some .client)
  | .openFile _ (some fd) => Function.update opens fd (some .file)
  | .socket _ (some fd) => Function.update opens fd (some .upstream)
  | .close fd => Function.update opens fd none
  | _ => opens

/-- The open descriptors after some calls. -/
def afterCalls (opens : Nat → Option FdKind) (calls : List ControlCall) : Nat → Option FdKind :=
  calls.foldl afterCall opens

/-- The descriptors that are open after the calls of a worker. -/
def openFds (calls : List ControlCall) : Nat → Option FdKind := afterCalls (fun _ => none) calls

/-- Every call that brings a descriptor brings one that is not open: the kernel gives the
numbers of open descriptors to nobody else. -/
def FreshAfter : (Nat → Option FdKind) → List ControlCall → Prop
  | _, [] => True
  | opens, c :: cs =>
      (∀ fd, c.opened = some fd → opens fd = none) ∧ FreshAfter (afterCall opens c) cs

/-- The calls of a worker that starts without open descriptors. -/
def FreshCalls (calls : List ControlCall) : Prop := FreshAfter (fun _ => none) calls

instance FreshAfter.decidable : ∀ (opens : Nat → Option FdKind) (cs : List ControlCall),
    Decidable (FreshAfter opens cs)
  | _, [] => isTrue trivial
  | opens, c :: cs =>
      have : Decidable (FreshAfter (afterCall opens c) cs) := FreshAfter.decidable _ cs
      have : Decidable (∀ fd, c.opened = some fd → opens fd = none) :=
        decidable_of_iff (∀ fd ∈ c.opened, opens fd = none) (by simp only [Option.mem_def])
      inferInstanceAs (Decidable (_ ∧ _))

instance FreshCalls.decidable (calls : List ControlCall) : Decidable (FreshCalls calls) :=
  FreshAfter.decidable _ calls

/-- Every call that closes a descriptor closes one that is open. -/
def ClosesOpen : (Nat → Option FdKind) → List ControlCall → Prop
  | _, [] => True
  | opens, c :: cs => (∀ fd, c = .close fd → opens fd ≠ none) ∧ ClosesOpen (afterCall opens c) cs

/-- The address a socket was connected to, or is being connected to. -/
def connectedTo (fd : Nat) (calls : List ControlCall) : Option (List UInt8) :=
  calls.foldl (fun last c =>
    match c with
    | .socket _ fd' => if fd' = some fd then none else last
    | .connect fd' addr result => if fd' = fd ∧ result ≠ .error then some addr else last
    | _ => last) none

variable {opens : Nat → Option FdKind}

/-- A call that opens and closes nothing. -/
theorem afterCall_quiet {c : ControlCall} (h : c.Quiet) : afterCall opens c = opens := by
  obtain ⟨hopen, hclose⟩ := h
  cases c with
  | accept fd => cases hopen
  | openFile path fd =>
      cases fd with
      | none => rfl
      | some fd => cases hopen
  | socket addr fd =>
      cases fd with
      | none => rfl
      | some fd => cases hopen
  | connect fd addr result => rfl
  | epollCtl fd op ok => rfl
  | cork fd on ok => rfl
  | close fd => exact absurd rfl (hclose fd)

@[simp] theorem afterCalls_nil : afterCalls opens [] = opens := rfl

theorem afterCalls_singleton (c : ControlCall) : afterCalls opens [c] = afterCall opens c := rfl

theorem afterCalls_append (as bs : List ControlCall) :
    afterCalls opens (as ++ bs) = afterCalls (afterCalls opens as) bs :=
  List.foldl_append

theorem openFds_append (as bs : List ControlCall) :
    openFds (as ++ bs) = afterCalls (openFds as) bs := afterCalls_append as bs

/-- Fresh calls are fresh part by part. -/
theorem freshAfter_append (as bs : List ControlCall) : ∀ opens : Nat → Option FdKind,
    FreshAfter opens (as ++ bs) ↔ FreshAfter opens as ∧ FreshAfter (afterCalls opens as) bs := by
  induction as with
  | nil => exact fun _ => ⟨fun h => ⟨trivial, h⟩, fun h => h.2⟩
  | cons c as ih =>
      intro opens
      rw [List.cons_append, FreshAfter, FreshAfter, ih, and_assoc]
      exact Iff.rfl

/-- Calls that close what is open do so part by part. -/
theorem closesOpen_append (as bs : List ControlCall) : ∀ opens : Nat → Option FdKind,
    ClosesOpen opens (as ++ bs) ↔ ClosesOpen opens as ∧ ClosesOpen (afterCalls opens as) bs := by
  induction as with
  | nil => exact fun _ => ⟨fun h => ⟨trivial, h⟩, fun h => h.2⟩
  | cons c as ih =>
      intro opens
      rw [List.cons_append, ClosesOpen, ClosesOpen, ih, and_assoc]
      exact Iff.rfl

/-- The calls of a worker that goes on. -/
theorem FreshCalls.append {as bs : List ControlCall} (h : FreshCalls (as ++ bs)) :
    FreshCalls as ∧ FreshAfter (openFds as) bs :=
  (freshAfter_append as bs _).1 h

/-! ## The life of a descriptor -/

section Life

variable {fd : Nat}

/-- A call that neither brings nor closes a descriptor leaves it as it is. -/
theorem afterCall_other {c : ControlCall} (hopened : c.opened ≠ some fd) (hclose : c ≠ .close fd) :
    afterCall opens c fd = opens fd := by
  have hne : ∀ {k : Nat}, k ≠ fd → ∀ v, Function.update opens k v fd = opens fd :=
    fun hk _ => Function.update_of_ne (Ne.symm hk) _ _
  cases c with
  | accept k => exact hne (fun hk => hopened (congrArg some hk)) _
  | openFile path k =>
      cases k with
      | none => rfl
      | some k => exact hne (fun hk => hopened (congrArg some hk)) _
  | socket addr k =>
      cases k with
      | none => rfl
      | some k => exact hne (fun hk => hopened (congrArg some hk)) _
  | connect k addr result => rfl
  | epollCtl k op ok => rfl
  | cork k on ok => rfl
  | close k => exact hne (fun hk => hclose (congrArg _ hk)) _

/-- A descriptor that is not open stays so, and is not closed, until it is given again. -/
theorem closed_life (cs : List ControlCall) : ∀ {opens : Nat → Option FdKind},
    ClosesOpen opens cs → (∀ c ∈ cs, c.opened ≠ some fd) → opens fd = none →
      cs.count (.close fd) = 0 ∧ afterCalls opens cs fd = none := by
  induction cs with
  | nil => exact fun _ _ h => ⟨rfl, h⟩
  | cons c cs ih =>
      intro opens hcloses hopened hnone
      have hc : c ≠ .close fd := fun he => hcloses.1 fd he hnone
      have hfd : afterCall opens c fd = opens fd :=
        afterCall_other (hopened c List.mem_cons_self) hc
      rw [hnone] at hfd
      obtain ⟨hcount, hafter⟩ := ih hcloses.2 (fun c' h => hopened c' (List.mem_cons_of_mem c h)) hfd
      refine ⟨?_, hafter⟩
      rw [List.count_cons_of_ne hc]
      exact hcount

/-- An open descriptor that is not given again is still what it was, or was closed once. -/
theorem open_life {kind : FdKind} (cs : List ControlCall) : ∀ {opens : Nat → Option FdKind},
    ClosesOpen opens cs → (∀ c ∈ cs, c.opened ≠ some fd) → opens fd = some kind →
      cs.count (.close fd) = 0 ∧ afterCalls opens cs fd = some kind ∨
        cs.count (.close fd) = 1 ∧ afterCalls opens cs fd = none := by
  induction cs with
  | nil => exact fun _ _ h => Or.inl ⟨rfl, h⟩
  | cons c cs ih =>
      intro opens hcloses hopened hkind
      have hrest : ∀ c ∈ cs, c.opened ≠ some fd :=
        fun c' h => hopened c' (List.mem_cons_of_mem c h)
      by_cases hc : c = .close fd
      · subst hc
        have hnone : afterCall opens (.close fd) fd = none := Function.update_self ..
        obtain ⟨hcount, hafter⟩ := closed_life cs hcloses.2 hrest hnone
        refine Or.inr ⟨?_, hafter⟩
        rw [List.count_cons_self, hcount]
      · have hfd : afterCall opens c fd = opens fd :=
          afterCall_other (hopened c List.mem_cons_self) hc
        rw [hkind] at hfd
        rw [List.count_cons_of_ne hc]
        exact ih hcloses.2 hrest hfd

end Life

end TinyServer.Net
