import LfiRuntime.Arch.X64.Trampoline

/-!
`callback.S` and `runtime.S` for x86-64. Code that calls out is cut at the
call: the part before it ends at the entry of the host function, the part after
it starts where that function has returned.
-/

namespace LfiRuntime.X64

open LfiRuntime.BlockMemory
open LfiRuntime.Layout

def CTXREG_SCRATCH0_OFFSET : Int := 64
def CTXREG_SCRATCH1_OFFSET : Int := 72

variable (b : Build)

def zeroCallerRegs : List Instr :=
  [.xor .rdi, .xor .rcx, .xor .rsi, .xor .r8, .xor .r9,
    .xorps 2, .xorps 3, .xorps 4, .xorps 5, .xorps 6, .xorps 7, .xorps 8, .xorps 9,
    .xorps 10, .xorps 11, .xorps 12, .xorps 13, .xorps 14, .xorps 15]

/-- Access to the context on the way out of the sandbox. -/
def callbackAccess (s : State) : State :=
  if b.pku then
    exec [.mov .r11 .rdx, .pop .rcx] (exec pkuAllAccess (exec [.push .rcx, .mov .rdx .r11] s))
  else s

/-- From `get_ctx` to the save of the sandbox stack pointer. -/
def callbackSwitch : List Instr :=
  [.load SYS_CTX_OFFSET .r15 .r11, .xchg REGS_HOST_SP .r11 .rsp, .push .r12,
    .load REGS_HOST_SP .r11 .r12, .pushMem REGS_RSP .r11, .store .r12 REGS_RSP .r11]

/-- The arguments that `lfi_callback_struct` passes on in the context. -/
def saveStructArgs : List Instr :=
  [.store .rdi REGS_RDI .r11, .store .rsi REGS_RSI .r11, .store .rdx REGS_RDX .r11,
    .store .rcx REGS_RCX .r11, .store .r8 REGS_R8 .r11, .store .r9 REGS_R9 .r11,
    .movdquStore 0 (REGS_XMM 0) .r11, .movdquStore 1 (REGS_XMM 1) .r11,
    .movdquStore 2 (REGS_XMM 2) .r11, .movdquStore 3 (REGS_XMM 3) .r11,
    .movdquStore 4 (REGS_XMM 4) .r11, .movdquStore 5 (REGS_XMM 5) .r11,
    .movdquStore 6 (REGS_XMM 6) .r11, .movdquStore 7 (REGS_XMM 7) .r11]

def callbackCall : List Instr := [.push .r11, .cld, .callReg .r10 .callback]

/-- `lfi_callback_gen` up to the call of the host function. -/
def lfiCallback (withStruct : Bool) (s : State) : State :=
  let s := exec callbackSwitch (callbackAccess b s)
  exec callbackCall (if withStruct then exec saveStructArgs s else s)

def callbackAbort : List Instr :=
  [.storeImm 0 CTX_ABORT_CALLBACK .r11, .storeImm 1 CTX_ABORT_STATUS .r11,
    .addImm 16 .rsp, .store .rsp REGS_HOST_SP .r11, .mov .r11 .rdi, .call .lfiRetEnd]

/-- The switch back to the sandbox stack. -/
def callbackReturn : List Instr :=
  [.load REGS_RSP .r11 .r10, .popMem REGS_RSP .r11, .pop .r12,
    .store .rsp REGS_HOST_SP .r11, .mov .r10 .rsp]

/-- The results that the host function left in the context. -/
def loadStructResults : List Instr :=
  [.load REGS_RAX .r11 .rax, .load REGS_RDX .r11 .rdx,
    .movdquLoad (REGS_XMM 0) .r11 0, .movdquLoad (REGS_XMM 1) .r11 1]

def callbackPku (s : State) : State :=
  if b.pku then
    exec [.mov .r11 .rax, .mov .r10 .rdx]
      (pkuBoxAccess b (exec [.load REGS_PKEY .r11 .rcx, .mov .rax .r11, .mov .rdx .r10] s))
  else s

/-- The return into the sandbox. -/
def callbackJump : List Instr := [.pop .r11, .andl 0xffffffe0 .r11, .add .r14 .r11, .jmp .r11]

/-- From the results to that return. -/
def callbackTail (withStruct : Bool) (s : State) : State :=
  let s := if withStruct then exec loadStructResults s else s
  let s := callbackPku b (loadFp b .r11 s)
  exec callbackJump (if b.storesOnly then s else exec zeroCallerRegs s)

/-- `lfi_callback_gen` after that call. -/
def lfiCallbackEnd (withStruct : Bool) (s : State) : State :=
  let s := exec [.pop .r11, .cmpMemImm 1 CTX_ABORT_CALLBACK .r11] s
  if s.flags.zf then exec lfiRetEnd (exec callbackAbort s)
  else
    let s := if b.segue then segGsSet b .r11 .r10 s else s
    callbackTail b withStruct (exec callbackReturn s)

/-! `runtime.S`. -/

def ctxEntrySave : List Instr :=
  [.push .r15, .push .r14, .push .r13, .push .r12, .push .rbx, .push .rbp,
    .store .rsp 0 .rsi, .mov .rdx .r11]

def ctxEntryLoad : List Instr :=
  [.load REGS_RSP .rdi .rsp, .load REGS_RAX .rdi .rax, .load REGS_RCX .rdi .rcx,
    .load REGS_RDX .rdi .rdx, .load REGS_RBX .rdi .rbx, .load REGS_RBP .rdi .rbp,
    .load REGS_RSI .rdi .rsi, .load REGS_R8 .rdi .r8, .load REGS_R9 .rdi .r9,
    .load REGS_R10 .rdi .r10, .load REGS_R12 .rdi .r12, .load REGS_R13 .rdi .r13,
    .load REGS_R14 .rdi .r14]

def ctxEntryFp : List Instr :=
  [.load REGS_R15 .rdi .r15, .fldcw REGS_FCW .rdi, .ldmxcsr REGS_MXCSR .rdi]

def ctxEntryPku (s : State) : State :=
  if b.pku then
    exec [.xorl .rax] (pkuBoxAccess b (exec [.load REGS_PKEY .rdi .rcx, .load REGS_RDI .rdi .rdi] s))
  else exec [.load REGS_RDI .rdi .rdi] s

def zeroXmms : List Instr :=
  [.xorps 0, .xorps 1, .xorps 2, .xorps 3, .xorps 4, .xorps 5, .xorps 6, .xorps 7,
    .xorps 8, .xorps 9, .xorps 10, .xorps 11, .xorps 12, .xorps 13, .xorps 14, .xorps 15]

def lfiCtxEntry (s : State) : State :=
  let s := exec ctxEntryLoad (exec ctxEntrySave s)
  let s := if b.segue then segGsSet b .rdi .r15 s else s
  exec [.jmp .r11] (exec zeroXmms (ctxEntryPku b (exec ctxEntryFp s)))

def lfiCtxEnd : List Instr :=
  [.load REGS_HOST_SP .rdi .rsp, .mov .rsi .rax, .cld,
    .pop .rbp, .pop .rbx, .pop .r12, .pop .r13, .pop .r14, .pop .r15, .ret]

/-- Access to the context at a runtime call, with two registers kept in the
`ctxreg` array. -/
def syscallAccess (s : State) : State :=
  if b.pku then
    exec [.load CTXREG_SCRATCH0_OFFSET .r15 .rax, .load CTXREG_SCRATCH1_OFFSET .r15 .rdx]
      (exec pkuAllAccess
        (exec [.store .rax CTXREG_SCRATCH0_OFFSET .r15, .store .rdx CTXREG_SCRATCH1_OFFSET .r15] s))
  else s

def syscallSave : List Instr :=
  [.store .rsp REGS_RSP .rcx, .store .rax REGS_RAX .rcx, .store .rdx REGS_RDX .rcx,
    .store .rbx REGS_RBX .rcx, .store .rbp REGS_RBP .rcx, .store .rsi REGS_RSI .rcx,
    .store .rdi REGS_RDI .rcx, .store .r8 REGS_R8 .rcx, .store .r9 REGS_R9 .rcx,
    .store .r10 REGS_R10 .rcx, .store .r11 REGS_R11 .rcx, .fnstcw REGS_FCW .rcx]

def syscallSaveXmms : List Instr :=
  [.movqStore 0 (REGS_XMM 0) .rcx, .movqStore 1 (REGS_XMM 1) .rcx,
    .movqStore 2 (REGS_XMM 2) .rcx, .movqStore 3 (REGS_XMM 3) .rcx,
    .movqStore 4 (REGS_XMM 4) .rcx, .movqStore 5 (REGS_XMM 5) .rcx,
    .movqStore 6 (REGS_XMM 6) .rcx, .movqStore 7 (REGS_XMM 7) .rcx,
    .movqStore 8 (REGS_XMM 8) .rcx, .movqStore 9 (REGS_XMM 9) .rcx,
    .movqStore 10 (REGS_XMM 10) .rcx, .movqStore 11 (REGS_XMM 11) .rcx,
    .movqStore 12 (REGS_XMM 12) .rcx, .movqStore 13 (REGS_XMM 13) .rcx,
    .movqStore 14 (REGS_XMM 14) .rcx, .movqStore 15 (REGS_XMM 15) .rcx]

def syscallCall : List Instr :=
  [.load REGS_HOST_SP .rcx .rsp, .cld, .push .rcx, .mov .rcx .rdi, .call .lfiSyscallHandler]

/-- `lfi_syscall_entry` up to the call of `lfi_syscall_handler`. -/
def lfiSyscallEntry (s : State) : State :=
  let s := exec (getCtx .rcx) (syscallAccess b s)
  exec syscallCall (exec syscallSaveXmms (exec syscallSave s))

def syscallLoad : List Instr :=
  [.load REGS_RSP .rcx .rsp, .load REGS_RAX .rcx .rax, .load REGS_RDI .rcx .rdi,
    .load REGS_RDX .rcx .rdx, .load REGS_RBX .rcx .rbx, .load REGS_RBP .rcx .rbp,
    .load REGS_RSI .rcx .rsi, .load REGS_R8 .rcx .r8, .load REGS_R9 .rcx .r9,
    .load REGS_R10 .rcx .r10, .load REGS_R11 .rcx .r11, .fldcw REGS_FCW .rcx]

def syscallLoadXmms : List Instr :=
  [.movqLoad (REGS_XMM 0) .rcx 0, .movqLoad (REGS_XMM 1) .rcx 1,
    .movqLoad (REGS_XMM 2) .rcx 2, .movqLoad (REGS_XMM 3) .rcx 3,
    .movqLoad (REGS_XMM 4) .rcx 4, .movqLoad (REGS_XMM 5) .rcx 5,
    .movqLoad (REGS_XMM 6) .rcx 6, .movqLoad (REGS_XMM 7) .rcx 7,
    .movqLoad (REGS_XMM 8) .rcx 8, .movqLoad (REGS_XMM 9) .rcx 9,
    .movqLoad (REGS_XMM 10) .rcx 10, .movqLoad (REGS_XMM 11) .rcx 11,
    .movqLoad (REGS_XMM 12) .rcx 12, .movqLoad (REGS_XMM 13) .rcx 13,
    .movqLoad (REGS_XMM 14) .rcx 14, .movqLoad (REGS_XMM 15) .rcx 15,
    .fldcw REGS_FCW .rcx, .ldmxcsr REGS_MXCSR .rcx]

def syscallPku (s : State) : State :=
  if b.pku then
    exec [.load CTXREG_SCRATCH0_OFFSET .r15 .rax, .load CTXREG_SCRATCH1_OFFSET .r15 .rdx]
      (pkuBoxAccess b
        (exec [.store .rax CTXREG_SCRATCH0_OFFSET .r15, .store .rdx CTXREG_SCRATCH1_OFFSET .r15,
          .load REGS_PKEY .rcx .rcx] s))
  else s

/-- `lfi_syscall_entry` after that call. -/
def lfiSyscallEnd (s : State) : State :=
  let s := exec [.pop .rcx] s
  let s := if b.segue then segGsSet b .rcx .rax s else s
  let s := syscallPku b (exec syscallLoadXmms (exec syscallLoad s))
  exec [.movImm 0 .rcx, .jmp .r11] s

end LfiRuntime.X64
