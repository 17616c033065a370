import LfiRuntime.Arch.Arm64.Trampoline

/-!
`callback.S` and `runtime.S` for AArch64. Code that calls out is cut at the
call: the part before it ends at the entry of the host function, the part after
it starts where that function has returned.
-/

namespace LfiRuntime.Arm64

open LfiRuntime.BlockMemory
open LfiRuntime.Layout

variable (b : Build)

def zeroCallerRegs : List Instr :=
  [.movImm (.x 2) 0, .movImm (.x 3) 0, .movImm (.x 4) 0, .movImm (.x 5) 0,
    .movImm (.x 6) 0, .movImm (.x 7) 0, .movImm (.x 9) 0, .movImm (.x 11) 0,
    .movImm (.x 12) 0, .movImm (.x 13) 0, .movImm (.x 14) 0, .movImm (.x 15) 0,
    .movImm (.x 16) 0, .movImm (.x 17) 0,
    .movi 2, .movi 3, .movi 4, .movi 5, .movi 6, .movi 7,
    .movHigh 8, .movHigh 9, .movHigh 10, .movHigh 11,
    .movHigh 12, .movHigh 13, .movHigh 14, .movHigh 15,
    .movi 16, .movi 17, .movi 18, .movi 19, .movi 20, .movi 21, .movi 22, .movi 23,
    .movi 24, .movi 25, .movi 26, .movi 27, .movi 28, .movi 29, .movi 30, .movi 31,
    .ands, .msrFpsr]

/-- The target comes in the base register, which the context restores. -/
def callbackTarget : List Instr :=
  getCtx (.x 9) ++ [.mov (.x 16) REG_BASE, .ldr REG_BASE (.x 9) REGS_BASE,
    .mov REG_ADDR REG_BASE]

/-- The arguments that `lfi_callback_struct` passes on in the context. -/
def saveStructArgs : List Instr :=
  [.str (.x 0) (.x 9) (REGS_X 0), .str (.x 1) (.x 9) (REGS_X 1),
    .str (.x 2) (.x 9) (REGS_X 2), .str (.x 3) (.x 9) (REGS_X 3),
    .str (.x 4) (.x 9) (REGS_X 4), .str (.x 5) (.x 9) (REGS_X 5),
    .str (.x 6) (.x 9) (REGS_X 6), .str (.x 7) (.x 9) (REGS_X 7),
    .str (.x 8) (.x 9) (REGS_X 8),
    .strd 0 (.x 9) (REGS_V 0), .strd 1 (.x 9) (REGS_V 1), .strd 2 (.x 9) (REGS_V 2),
    .strd 3 (.x 9) (REGS_V 3), .strd 4 (.x 9) (REGS_V 4), .strd 5 (.x 9) (REGS_V 5),
    .strd 6 (.x 9) (REGS_V 6), .strd 7 (.x 9) (REGS_V 7)]

/-- The switch to the host stack, with `x22` and `x23` free for the context and
the platform register. -/
def callbackSwitch : List Instr :=
  [.mov (.x 12) .sp, .ldr (.x 11) (.x 9) REGS_HOST_SP, .mov .sp (.x 11),
    .ldr (.x 11) (.x 9) REGS_SP, .stpPre (.x 11) (.x 30) (-16),
    .stpPre (.x 22) (.x 23) (-16), .str (.x 12) (.x 9) REGS_SP,
    .mov (.x 22) (.x 9), .ldr (.x 18) (.x 9) (REGS_X 18), .mov (.x 23) (.x 18)]

/-- `lfi_callback_gen` up to the call of the host function. -/
def lfiCallback (withStruct : Bool) (s : State) : State :=
  let s := exec callbackTarget s
  let s := if withStruct then exec saveStructArgs s else s
  exec [.blr (.x 16) .callback] (exec callbackSwitch s)

/-- The results that the host function left in the context. -/
def loadStructResults : List Instr :=
  [.ldr (.x 0) (.x 9) (REGS_X 0), .ldr (.x 1) (.x 9) (REGS_X 1),
    .ldr (.x 8) (.x 9) (REGS_X 8), .ldrd 0 (.x 9) (REGS_V 0), .ldrd 1 (.x 9) (REGS_V 1)]

def callbackAbort : List Instr :=
  [.str .xzr (.x 9) CTX_ABORT_CALLBACK, .movImm (.x 10) 1, .str (.x 10) (.x 9) CTX_ABORT_STATUS,
    .mov (.x 0) (.x 9), .bl .lfiRetEnd]

/-- The switch back to the sandbox stack. -/
def callbackReturn : List Instr :=
  [.ldpPost (.x 22) (.x 23) 16, .ldpPost (.x 11) (.x 30) 16, .ldr (.x 12) (.x 9) REGS_SP,
    .str (.x 11) (.x 9) REGS_SP, .mov (.x 11) .sp, .str (.x 11) (.x 9) REGS_HOST_SP,
    .mov .sp (.x 12)]

/-- The platform register, the context and the flag of an aborted callback. -/
def callbackCheck : List Instr :=
  [.mov (.x 18) (.x 23), .mov (.x 9) (.x 22), .ldr (.x 10) (.x 9) CTX_ABORT_CALLBACK,
    .cmpImm (.x 10) 1]

/-- `lfi_callback_gen` after that call. -/
def lfiCallbackEnd (withStruct : Bool) (s : State) : State :=
  let s := exec callbackCheck s
  -- `bne`
  if s.x 10 = .int 1 then lfiRetEnd (exec callbackAbort s)
  else
    let s := if withStruct then exec loadStructResults s else s
    let s := exec callbackReturn s
    let s := if b.storesOnly then s else exec zeroCallerRegs s
    exec [.mov REG_ADDR REG_BASE, .addUxtw (.x 30) REG_BASE (.x 30), .ret] s

/-! `runtime.S`. -/

def ctxEntrySave : List Instr :=
  [.paciasp, .stpdPre 8 9 (-16), .stpdPre 10 11 (-16), .stpdPre 12 13 (-16), .stpdPre 14 15 (-16),
    .stpPre .xzr (.x 18) (-16), .stpPre (.x 19) (.x 20) (-16), .stpPre (.x 21) (.x 22) (-16),
    .stpPre (.x 23) (.x 24) (-16), .stpPre (.x 25) (.x 26) (-16), .stpPre (.x 27) (.x 28) (-16),
    .stpPre (.x 29) (.x 30) (-16), .mov (.x 8) .sp, .str (.x 8) (.x 1) 0, .mov (.x 30) (.x 2)]

def ctxEntryLoad : List Instr :=
  [.ldp (.x 2) (.x 3) (.x 0) (REGS_X 2), .ldp (.x 4) (.x 5) (.x 0) (REGS_X 4),
    .ldp (.x 6) (.x 7) (.x 0) (REGS_X 6), .ldp (.x 8) (.x 9) (.x 0) (REGS_X 8),
    .ldp (.x 10) (.x 11) (.x 0) (REGS_X 10), .ldp (.x 12) (.x 13) (.x 0) (REGS_X 12),
    .ldp (.x 14) (.x 15) (.x 0) (REGS_X 14), .ldp (.x 16) (.x 17) (.x 0) (REGS_X 16),
    .ldp (.x 18) (.x 19) (.x 0) (REGS_X 18), .ldp (.x 20) (.x 21) (.x 0) (REGS_X 20),
    .ldp (.x 22) (.x 23) (.x 0) (REGS_X 22), .ldp (.x 24) (.x 25) (.x 0) (REGS_X 24),
    .ldp (.x 26) (.x 27) (.x 0) (REGS_X 26), .ldp (.x 28) (.x 29) (.x 0) (REGS_X 28),
    .ldp .xzr (.x 1) (.x 0) (REGS_X 30), .mov .sp (.x 1), .ldp (.x 0) (.x 1) (.x 0) (REGS_X 0)]

def zeroVs : List Instr :=
  [.movi 0, .movi 1, .movi 2, .movi 3, .movi 4, .movi 5, .movi 6, .movi 7,
    .movi 8, .movi 9, .movi 10, .movi 11, .movi 12, .movi 13, .movi 14, .movi 15,
    .movi 16, .movi 17, .movi 18, .movi 19, .movi 20, .movi 21, .movi 22, .movi 23,
    .movi 24, .movi 25, .movi 26, .movi 27, .movi 28, .movi 29, .movi 30, .movi 31]

/-- Flags cleared, and the return to an address of the sandbox. -/
def sandboxReturn : List Instr := [.ands, .msrFpsr, .addUxtw (.x 30) REG_BASE (.x 30), .ret]

def lfiCtxEntry (s : State) : State :=
  exec sandboxReturn (exec (ctxEntryLoad ++ zeroVs) (exec ctxEntrySave s))

def lfiCtxEnd : List Instr :=
  [.paciasp, .ldr (.x 19) (.x 0) REGS_HOST_SP, .mov .sp (.x 19), .mov (.x 0) (.x 1),
    .ldpPost (.x 29) (.x 30) 16, .ldpPost (.x 27) (.x 28) 16, .ldpPost (.x 25) (.x 26) 16,
    .ldpPost (.x 23) (.x 24) 16, .ldpPost (.x 21) (.x 22) 16, .ldpPost (.x 19) (.x 20) 16,
    .ldpPost .xzr (.x 18) 16, .ldpdPost 14 15 16, .ldpdPost 12 13 16, .ldpdPost 10 11 16,
    .ldpdPost 8 9 16, .autiasp, .ret]

def syscallSave : List Instr :=
  [.stp (.x 0) (.x 1) REG_BASE (REGS_X 0), .stp (.x 2) (.x 3) REG_BASE (REGS_X 2),
    .stp (.x 4) (.x 5) REG_BASE (REGS_X 4), .stp (.x 6) (.x 7) REG_BASE (REGS_X 6),
    .stp (.x 8) (.x 9) REG_BASE (REGS_X 8), .stp (.x 10) (.x 11) REG_BASE (REGS_X 10),
    .stp (.x 12) (.x 13) REG_BASE (REGS_X 12), .stp (.x 14) (.x 15) REG_BASE (REGS_X 14),
    .stp (.x 16) (.x 17) REG_BASE (REGS_X 16), .str (.x 18) REG_BASE (REGS_X 18),
    .str REG_ADDR REG_BASE REGS_ADDR, .mov (.x 1) .sp, .stp (.x 30) (.x 1) REG_BASE (REGS_X 30),
    .stpq 0 1 REG_BASE (REGS_V 0), .stpq 2 3 REG_BASE (REGS_V 2),
    .stpq 4 5 REG_BASE (REGS_V 4), .stpq 6 7 REG_BASE (REGS_V 6),
    .stpq 8 9 REG_BASE (REGS_V 8), .stpq 10 11 REG_BASE (REGS_V 10),
    .stpq 12 13 REG_BASE (REGS_V 12), .stpq 14 15 REG_BASE (REGS_V 14),
    .stpq 16 17 REG_BASE (REGS_V 16), .stpq 18 19 REG_BASE (REGS_V 18),
    .stpq 20 21 REG_BASE (REGS_V 20), .stpq 22 23 REG_BASE (REGS_V 22),
    .stpq 24 25 REG_BASE (REGS_V 24), .stpq 26 27 REG_BASE (REGS_V 26),
    .stpq 28 29 REG_BASE (REGS_V 28), .stpq 30 31 REG_BASE (REGS_V 30)]

def syscallCall : List Instr :=
  [.ldr (.x 0) REG_BASE REGS_HOST_SP, .mov .sp (.x 0), .strPre REG_BASE (-16),
    .mov (.x 0) REG_BASE, .bl .lfiSyscallHandler]

/-- `lfi_syscall_entry` up to the call of `lfi_syscall_handler`. -/
def lfiSyscallEntry (s : State) : State :=
  let s := exec ([.mov REG_ADDR REG_BASE] ++ getCtx REG_BASE) s
  exec syscallCall (exec syscallSave s)

def syscallLoad : List Instr :=
  [.ldp (.x 2) (.x 3) (.x 0) (REGS_X 2), .ldp (.x 4) (.x 5) (.x 0) (REGS_X 4),
    .ldp (.x 6) (.x 7) (.x 0) (REGS_X 6), .ldp (.x 8) (.x 9) (.x 0) (REGS_X 8),
    .ldp (.x 10) (.x 11) (.x 0) (REGS_X 10), .ldp (.x 12) (.x 13) (.x 0) (REGS_X 12),
    .ldp (.x 14) (.x 15) (.x 0) (REGS_X 14), .ldp (.x 16) (.x 17) (.x 0) (REGS_X 16),
    .ldr (.x 18) (.x 0) (REGS_X 18), .ldr REG_ADDR (.x 0) REGS_ADDR,
    .ldr REG_BASE (.x 0) REGS_BASE, .ldp (.x 30) (.x 1) (.x 0) (REGS_X 30),
    .ldpq 0 1 (.x 0) (REGS_V 0), .ldpq 2 3 (.x 0) (REGS_V 2),
    .ldpq 4 5 (.x 0) (REGS_V 4), .ldpq 6 7 (.x 0) (REGS_V 6),
    .ldpq 8 9 (.x 0) (REGS_V 8), .ldpq 10 11 (.x 0) (REGS_V 10),
    .ldpq 12 13 (.x 0) (REGS_V 12), .ldpq 14 15 (.x 0) (REGS_V 14),
    .ldpq 16 17 (.x 0) (REGS_V 16), .ldpq 18 19 (.x 0) (REGS_V 18),
    .ldpq 20 21 (.x 0) (REGS_V 20), .ldpq 22 23 (.x 0) (REGS_V 22),
    .ldpq 24 25 (.x 0) (REGS_V 24), .ldpq 26 27 (.x 0) (REGS_V 26),
    .ldpq 28 29 (.x 0) (REGS_V 28), .ldpq 30 31 (.x 0) (REGS_V 30),
    .mov .sp (.x 1), .ldp (.x 0) (.x 1) (.x 0) (REGS_X 0)]

/-- `lfi_syscall_entry` after that call. -/
def lfiSyscallEnd (s : State) : State :=
  exec sandboxReturn (exec syscallLoad (exec [.ldrPost (.x 0) 16] s))

end LfiRuntime.Arm64
