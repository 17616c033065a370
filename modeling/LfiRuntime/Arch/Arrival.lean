import LfiRuntime.Arch.Layout

/-!
What a trampoline is called with, and what the sandbox sees where it is entered.
-/

namespace LfiRuntime.Layout

open LfiRuntime.BlockMemory

/-- The variable that holds the context pointer, the box, the target and the arguments,
and what the trampolines take from the context. -/
structure Passed where
  ctx : Nat
  slot : Block
  off : Int
  box : W
  target : BitVec 64
  sp : BitVec 64
  base : BitVec 64
  ctxReg : W
  retAddr : W
  ints : List W
  floats : List W

/-- The state at the first instruction of the sandbox. -/
structure Arrival where
  pc : W
  base : W
  ctxReg : W
  retAddr : W
  sp : W
  ints : List W
  floats : List W

/-- The context in memory, with the offsets of an architecture. -/
structure Passed.Stored (i : Passed) (spCell baseCell ctxRegCell : Int) (m : Mem) : Prop where
  slot : m (.ptr i.slot i.off) = .ptr (.ctx i.ctx) 0
  -- a variable outside of the context
  outside : i.slot ≠ .ctx i.ctx
  sp : m (.ptr (.ctx i.ctx) spCell) = .int i.sp
  base : m (.ptr (.ctx i.ctx) baseCell) = .int i.base
  ctxReg : m (.ptr (.ctx i.ctx) ctxRegCell) = i.ctxReg
  retAddr : m (.ptr (.ctx i.ctx) REGS_RETADDR) = i.retAddr

end LfiRuntime.Layout
