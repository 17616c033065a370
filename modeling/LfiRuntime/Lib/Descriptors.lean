import Mathlib.Data.Fin.Basic
import Mathlib.Logic.Function.Basic

/-!
What the calls of POSIX do with a table of descriptors: a slot is free or refers to
an entry, a new descriptor is the lowest that is free, and a call that fails does
nothing.
-/

namespace LfiRuntime.Descriptors

universe u

abbrev Table (n : Nat) (ε : Type u) := Fin n → Option ε

def IsLowestFree {n : Nat} {ε : Type u} (T : Table n ε) (fd : Fin n) : Prop :=
  T fd = none ∧ ∀ fd' < fd, T fd' ≠ none

/-- `alloc` puts an entry into a slot; `other` are the calls that have nothing to do
with the slots. -/
inductive Op (ε : Type u)
  | alloc (e : ε)
  | dup (old : Int)
  | dup2 (old new : Int)
  | close (fd : Int)
  | closeAll
  | other

/-- A call with its result, which is negative where the call has failed. -/
inductive Posix {n : Nat} {ε : Type u} (T : Table n ε) : Op ε → Int → Table n ε → Prop
  | alloc {e fd} (hfd : IsLowestFree T fd) : Posix T (.alloc e) fd (Function.update T fd (some e))
  | full {e r} (hfull : ∀ fd, T fd ≠ none) (hr : r < 0) : Posix T (.alloc e) r T
  | dup {old new : Fin n} {e} (hold : T old = some e) (hnew : IsLowestFree T new) :
      Posix T (.dup old) new (Function.update T new (some e))
  | dupFailed {old r} (hr : r < 0) : Posix T (.dup old) r T
  | dup2 {old new : Fin n} {e} (hold : T old = some e) :
      Posix T (.dup2 old new) new (Function.update T new (some e))
  | dup2Failed {old new r} (hr : r < 0) : Posix T (.dup2 old new) r T
  | close {fd : Fin n} {e} (hfd : T fd = some e) : Posix T (.close fd) 0 (Function.update T fd none)
  | notOpen {fd : Int} {r} (hfd : ∀ i : Fin n, (i : Int) = fd → T i = none) (hr : r < 0) :
      Posix T (.close fd) r T
  | closeAll : Posix T .closeAll 0 fun _ => none
  | other {r} : Posix T .other r T

variable {n : Nat} {ε : Type u} {T T' : Table n ε} {fd new : Fin n} {e : ε}

theorem Posix.closeAll_eq {r : Int} (h : Posix T .closeAll r T') : T' = fun _ => none := by
  cases h
  rfl

/-- A table is given by what changes. -/
theorem eq_update (hnew : T' new = some e) (hsame : ∀ fd, fd ≠ new → T' fd = T fd) :
    T' = Function.update T new (some e) := by
  funext fd
  by_cases hfd : fd = new
  · rw [hfd, hnew, Function.update_self]
  · rw [hsame fd hfd, Function.update_of_ne hfd]

end LfiRuntime.Descriptors
