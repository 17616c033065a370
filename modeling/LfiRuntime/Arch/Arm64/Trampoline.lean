import LfiRuntime.Arch.Arm64.Isa

/-!
`trampoline.S` for AArch64, with the macros of `arch_asm.h`. A function of this
file takes the state at its label to the state after its last instruction.
-/

namespace LfiRuntime.Arm64

open LfiRuntime.BlockMemory
open LfiRuntime.Layout

def REGS_X (n : Nat) : Int := 16 + 8 * n
def REGS_SP : Int := 264
def REGS_V (n : Nat) : Int := 272 + 16 * n
def CTX_ABORT_CALLBACK : Int := 784
def CTX_ABORT_STATUS : Int := 792

abbrev REG_BASE : Reg := .x 27
abbrev REG_ADDR : Reg := .x 28
def REGS_BASE : Int := REGS_X 27
def REGS_ADDR : Int := REGS_X 28

/-- How `get_invoke_info` finds the thread-local variable: at a fixed distance
or through a descriptor. -/
inductive Tls
  | exec
  | desc
deriving DecidableEq, Repr

structure Build where
  storesOnly : Bool
  /-- The distance of `lfi_invoke_info` from the thread pointer. -/
  gottprel : BitVec 64
  tls : Tls

variable (b : Build)

/-- The address of `lfi_invoke_info`. -/
def invokeInfo (thread : Nat) : W := .ptr (.tls thread) b.gottprel.toInt

def getCtx (reg : Reg) : List Instr := [.subImm reg (.x 25) (-SYS_CTX_OFFSET), .ldr reg reg 0]

def zeroRegs : List Instr :=
  [.movImm (.x 9) 0, .movImm (.x 11) 0, .movImm (.x 12) 0, .movImm (.x 13) 0,
    .movImm (.x 14) 0, .movImm (.x 15) 0, .movImm (.x 16) 0, .movImm (.x 17) 0,
    .movImm (.x 19) 0, .movImm (.x 20) 0, .movImm (.x 21) 0, .movImm (.x 22) 0,
    .movImm (.x 23) 0, .movImm (.x 24) 0, .movImm (.x 26) 0, .movImm (.x 29) 0,
    .movi 8, .movi 9, .movi 10, .movi 11, .movi 12, .movi 13, .movi 14, .movi 15,
    .movi 16, .movi 17, .movi 18, .movi 19, .movi 20, .movi 21, .movi 22, .movi 23,
    .movi 24, .movi 25, .movi 26, .movi 27, .movi 28, .movi 29, .movi 30, .movi 31,
    .ands, .msrFpsr]

/-- `get_invoke_info`, with the result in `reg`. -/
def getInvokeInfo (reg : Reg) (s : State) : State :=
  match b.tls with
  | .exec =>
      -- the linker puts the constant into the global offset table
      exec [.movImm (.x 11) b.gottprel, .mrsTpidr (.x 12), .add reg (.x 12) (.x 11)] s
  | .desc =>
      let s := exec [.mov (.x 11) (.x 0), .mov (.x 12) (.x 30),
        .leaSite (.x 0) .tlsdesc, .leaSite reg .tlsdesc] s
      -- the resolver changes x0 only: the distance from the thread pointer
      let s := (exec [.blr reg .tlsdesc] s).setReg (.x 0) (.int b.gottprel)
      exec [.ret, .mrsTpidr reg, .add reg reg (.x 0), .mov (.x 30) (.x 12),
        .mov (.x 0) (.x 11)] s

/-- `.trampoline_clone` up to its call of `lfi_clone`. -/
def trampolineCloneSave : List Instr :=
  [.paciasp, .stpPre (.x 29) (.x 30) (-16), .stpPre (.x 0) (.x 1) (-16),
    .stpPre (.x 2) (.x 3) (-16), .stpPre (.x 4) (.x 5) (-16), .stpPre (.x 6) (.x 7) (-16),
    .stpqPre 0 1 (-32), .stpqPre 2 3 (-32), .stpqPre 4 5 (-32), .stpqPre 6 7 (-32),
    .mov (.x 0) (.x 21), .mov (.x 1) (.x 20), .bl .lfiClone]

/-- `.trampoline_clone` after that call. -/
def trampolineCloneRestore : List Instr :=
  [.ldpqPost 6 7 32, .ldpqPost 4 5 32, .ldpqPost 2 3 32, .ldpqPost 0 1 32,
    .ldpPost (.x 6) (.x 7) 16, .ldpPost (.x 4) (.x 5) 16, .ldpPost (.x 2) (.x 3) 16,
    .ldpPost (.x 0) (.x 1) 16, .ldpPost (.x 29) (.x 30) 16, .autiasp, .ret]

def trampolineClone (clone : HostFn) (s : State) : State :=
  exec trampolineCloneRestore (clone.run (exec trampolineCloneSave s))

def lazyCtxClone (clone : HostFn) (s : State) : State :=
  let s := exec [.ldr (.x 13) (.x 20) 0] s
  -- `cbnz`
  if s.x 13 = .int 0 then
    exec [.ldr (.x 13) (.x 20) 0] (trampolineClone clone (exec [.bl .trampolineClone] s))
  else s

/-- The saves at the start of every trampoline. -/
def trampolineSave : List Instr :=
  [.stpdPre 8 9 (-16), .stpdPre 10 11 (-16), .stpdPre 12 13 (-16), .stpdPre 14 15 (-16),
    .stpPre (.x 19) (.x 20) (-16), .stpPre (.x 21) (.x 22) (-16), .stpPre (.x 23) (.x 24) (-16),
    .stpPre (.x 25) (.x 26) (-16), .stpPre (.x 27) (.x 28) (-16), .stpPre (.x 29) (.x 30) (-16)]

def loadInvokeInfo : List Instr :=
  [.ldr (.x 20) (.x 19) INVOKE_CTX, .ldr (.x 21) (.x 19) INVOKE_BOX,
    .ldr (.x 22) (.x 19) INVOKE_TARGETFN]

/-- The arguments that `lfi_trampoline_struct` takes from the context. -/
def loadStructArgs : List Instr :=
  [.ldr (.x 0) (.x 13) (REGS_X 0), .ldr (.x 1) (.x 13) (REGS_X 1),
    .ldr (.x 2) (.x 13) (REGS_X 2), .ldr (.x 3) (.x 13) (REGS_X 3),
    .ldr (.x 4) (.x 13) (REGS_X 4), .ldr (.x 5) (.x 13) (REGS_X 5),
    .ldr (.x 6) (.x 13) (REGS_X 6), .ldr (.x 7) (.x 13) (REGS_X 7),
    .ldr (.x 8) (.x 13) (REGS_X 8),
    .ldrd 0 (.x 13) (REGS_V 0), .ldrd 1 (.x 13) (REGS_V 1), .ldrd 2 (.x 13) (REGS_V 2),
    .ldrd 3 (.x 13) (REGS_V 3), .ldrd 4 (.x 13) (REGS_V 4), .ldrd 5 (.x 13) (REGS_V 5),
    .ldrd 6 (.x 13) (REGS_V 6), .ldrd 7 (.x 13) (REGS_V 7)]

/-- `.lfi_trampoline_common` up to `zero_regs`. -/
def commonSwitch : List Instr :=
  [.ldr (.x 9) (.x 13) REGS_RETADDR, .mov (.x 10) (.x 22),
    .ldr (.x 12) (.x 13) REGS_SP, .stpPre (.x 12) .xzr (-16),
    .mov (.x 11) .sp, .str (.x 11) (.x 13) REGS_HOST_SP,
    .mov .sp (.x 12), .mov (.x 30) (.x 9), .ldr REG_BASE (.x 13) REGS_BASE,
    .mov REG_ADDR REG_BASE, .ldr (.x 25) (.x 13) (REGS_X 25)]

def lfiTrampolineCommon (s : State) : State :=
  let s := exec commonSwitch s
  let s := if b.storesOnly then s else exec zeroRegs s
  exec [.addUxtw (.x 16) REG_BASE (.x 10), .br (.x 16)] s

/-- What `lfi_trampoline` and `lfi_trampoline_struct` have in common before
`lazy_ctx_clone`. -/
def trampolineEntry (s : State) : State :=
  exec loadInvokeInfo (getInvokeInfo b (.x 19) (exec trampolineSave (exec [.paciasp] s)))

def lfiTrampolineStruct (clone : HostFn) (s : State) : State :=
  lfiTrampolineCommon b (exec loadStructArgs (lazyCtxClone clone (trampolineEntry b s)))

def lfiTrampoline (clone : HostFn) (s : State) : State :=
  lfiTrampolineCommon b (lazyCtxClone clone (trampolineEntry b s))

def lfiTrampolineDirect (clone : HostFn) (s : State) : State :=
  let s := exec [.ldpPost (.x 10) (.x 13) 16, .ldpPost (.x 11) (.x 12) 16, .paciasp] s
  let s := exec [.mov (.x 22) (.x 10), .mov (.x 20) (.x 11), .mov (.x 21) (.x 12)]
    (exec trampolineSave s)
  lfiTrampolineCommon b (lazyCtxClone clone s)

/-- `.lfi_ret_internal`, with the context in the base register. -/
def lfiRetInternal : List Instr :=
  [.ldr (.x 19) REG_BASE REGS_HOST_SP, .mov .sp (.x 19),
    .str (.x 0) REG_BASE (REGS_X 0), .str (.x 1) REG_BASE (REGS_X 1),
    .str (.x 8) REG_BASE (REGS_X 8), .strd 0 REG_BASE (REGS_V 0), .strd 1 REG_BASE (REGS_V 1),
    .ldpPost (.x 19) .xzr 16, .str (.x 19) REG_BASE REGS_SP,
    .ldpPost (.x 29) (.x 30) 16, .ldpPost (.x 27) (.x 28) 16, .ldpPost (.x 25) (.x 26) 16,
    .ldpPost (.x 23) (.x 24) 16, .ldpPost (.x 21) (.x 22) 16, .ldpPost (.x 19) (.x 20) 16,
    .ldpdPost 14 15 16, .ldpdPost 12 13 16, .ldpdPost 10 11 16, .ldpdPost 8 9 16,
    .autiasp, .ret]

/-- `lfi_ret_end`, where an aborted callback also goes, with the context in
`x0`. -/
def lfiRetEnd (s : State) : State := exec lfiRetInternal (exec [.mov REG_BASE (.x 0)] s)

def lfiRet (s : State) : State := exec lfiRetInternal (exec (getCtx REG_BASE) s)

end LfiRuntime.Arm64
