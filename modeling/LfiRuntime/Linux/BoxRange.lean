import Mathlib.Tactic

/-!
The range of a box, and the checks of `sys.h` on a buffer in it.
-/

namespace LfiRuntime.BoxRange

structure Box where
  min : Nat
  max : Nat
deriving DecidableEq, Repr

/-- `lfi_box_bufvalid`. -/
def Box.bufvalid (box : Box) (p size : Nat) : Bool :=
  box.min ≤ p ∧ p ≤ box.max ∧ size ≤ box.max - p

def Box.bufcheck (box : Box) (p size align : Nat) : Bool :=
  box.bufvalid p size ∧ p % align = 0

def Box.bufhost (box : Box) (p size align : Nat) : Option Nat :=
  if box.bufcheck p size align then some p else none

end LfiRuntime.BoxRange
