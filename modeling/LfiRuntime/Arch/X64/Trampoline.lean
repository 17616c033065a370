import LfiRuntime.Arch.X64.Isa

/-!
`trampoline.S` for x86-64, with the macros of `arch_asm.h`. A function of this
file takes the state at its label to the state after its last instruction.
-/

namespace LfiRuntime.X64

open LfiRuntime.BlockMemory
open LfiRuntime.Layout

def REGS_PKEY : Int := 16
def REGS_RSP : Int := 24
def REGS_RAX : Int := 32
def REGS_RCX : Int := 40
def REGS_RDX : Int := 48
def REGS_RBX : Int := 56
def REGS_RBP : Int := 64
def REGS_RSI : Int := 72
def REGS_RDI : Int := 80
def REGS_R8 : Int := 88
def REGS_R9 : Int := 96
def REGS_R10 : Int := 104
def REGS_R11 : Int := 112
def REGS_R12 : Int := 120
def REGS_R13 : Int := 128
def REGS_R14 : Int := 136
def REGS_R15 : Int := 144
def REGS_FCW : Int := 152
def REGS_MXCSR : Int := 156
def REGS_XMM (n : Nat) : Int := 176 + 16 * n
def REGS_BASE : Int := REGS_R14
def CTX_ABORT_CALLBACK : Int := 432
def CTX_ABORT_STATUS : Int := 440
def CTX_GS_CACHE : Int := 448

/-- `__tls_get_addr` for a variable at a distance from the thread pointer. -/
structure TlsGetAddr (gottpoff : BitVec 64) extends HostFn where
  rax : ∀ s, (run s).reg .rax = .ptr (.tls s.thread) gottpoff.toInt
  mem : ∀ s k, s.reg .rsp = .ptr (.stack s.thread) k → ∀ a,
    (∀ o, o < k → a ≠ .ptr (.stack s.thread) o) → (run s).mem a = s.mem a

/-- How `get_invoke_info` finds the thread-local variable: at a fixed distance,
through a descriptor, or by a call of `__tls_get_addr`. -/
inductive Tls (gottpoff : BitVec 64)
  | exec
  | desc
  | dynamic (tlsGetAddr : TlsGetAddr gottpoff)

structure Build where
  pku : Bool
  segue : Bool
  segueCacheGs : Bool
  storesOnly : Bool
  /-- The distance of `lfi_invoke_info` from the thread pointer. -/
  gottpoff : BitVec 64
  tls : Tls gottpoff

variable (b : Build)

/-- The address of `lfi_invoke_info`. -/
def invokeInfo (thread : Nat) : W := .ptr (.tls thread) b.gottpoff.toInt

def getCtx (reg : Reg) : List Instr := [.load SYS_CTX_OFFSET .r15 reg]

def segGsSet (ctx scratch : Reg) (s : State) : State :=
  if b.segueCacheGs then
    let s := exec [.load CTX_GS_CACHE ctx scratch, .cmpMem .r14 0 scratch] s
    if s.flags.zf then s
    else exec [.wrgsbase .r14, .store .r14 0 scratch] s
  else exec [.wrgsbase .r14] s

def pkuAllAccess : List Instr := [.xorl .rax, .xorl .rcx, .xorl .rdx, .wrpkru]

/-- The macro after it has moved its key to `%rcx`. -/
def pkuBoxAccess (s : State) : State :=
  let s := exec [.leal .rcx .rcx .rcx, .movImm 0b11 .rax, .shlCl .rax, .notl .rax] s
  let s := if b.storesOnly then exec [.andl 0xfffffffe .rax] s else s
  exec [.xorl .rcx, .xorl .rdx, .wrpkru] s

def zeroRegs : List Instr :=
  [.xor .rax, .xor .rbx, .xor .rbp, .xor .r10, .xor .r12, .xor .r13,
    .xorps 8, .xorps 9, .xorps 10, .xorps 11, .xorps 12, .xorps 13, .xorps 14, .xorps 15]

/-- The saves around the call of `__tls_get_addr`. -/
def tlsSave : List Instr :=
  [.push .rdi, .push .rsi, .push .rdx, .push .rcx, .push .r8, .push .r9,
    .subImm 144 .rsp,
    .movdquStore 0 0 .rsp, .movdquStore 1 16 .rsp, .movdquStore 2 32 .rsp,
    .movdquStore 3 48 .rsp, .movdquStore 4 64 .rsp, .movdquStore 5 80 .rsp,
    .movdquStore 6 96 .rsp, .movdquStore 7 112 .rsp,
    .leaSite .tlsGetAddr .rdi, .call .tlsGetAddr]

def tlsRestore (reg : Reg) : List Instr :=
  [.mov .rax reg,
    .movdquLoad 0 .rsp 0, .movdquLoad 16 .rsp 1, .movdquLoad 32 .rsp 2,
    .movdquLoad 48 .rsp 3, .movdquLoad 64 .rsp 4, .movdquLoad 80 .rsp 5,
    .movdquLoad 96 .rsp 6, .movdquLoad 112 .rsp 7,
    .addImm 144 .rsp,
    .pop .r9, .pop .r8, .pop .rcx, .pop .rdx, .pop .rsi, .pop .rdi]

/-- `get_invoke_info`, with the result in `reg`. -/
def getInvokeInfo (reg : Reg) (s : State) : State :=
  match b.tls with
  | .exec =>
      let s := exec [.movFs reg] s
      -- the operand is a constant the linker puts into the global offset table
      (s.setReg reg ((Word.int b.gottpoff).add (s.reg reg))).setFlags
        (.add (.int b.gottpoff) (s.reg reg))
  | .desc =>
      let s := exec [.subImm 16 .rsp, .store .rax 0 .rsp, .leaSite .tlsdesc .rax] s
      -- the resolver changes %rax only: the distance from the thread pointer
      let s := (exec [.call .tlsdesc] s).setReg .rax (.int b.gottpoff)
      exec [.ret, .addFs .rax, .mov .rax reg, .load 0 .rsp .rax, .addImm 16 .rsp] s
  | .dynamic tlsGetAddr => exec (tlsRestore reg) (tlsGetAddr.run (exec tlsSave s))

def pushx (x : Fin 16) (s : State) : State := exec [.subImm 16 .rsp, .movdquStore x 0 .rsp] s

def popx (x : Fin 16) (s : State) : State := exec [.movdquLoad 0 .rsp x, .addImm 16 .rsp] s

/-- `.trampoline_clone` up to its call of `lfi_clone`. -/
def trampolineCloneSave (s : State) : State :=
  let s := exec [.subImm 8 .rsp, .push .rdi, .push .rsi, .push .rdx, .push .rcx,
    .push .r8, .push .r9, .push .r10, .push .r11] s
  let s := pushx 7 (pushx 6 (pushx 5 (pushx 4 (pushx 3 (pushx 2 (pushx 1 (pushx 0 s)))))))
  exec [.mov .r14 .rdi, .mov .r11 .rsi, .call .lfiClone] s

/-- `.trampoline_clone` after that call. -/
def trampolineCloneRestore (s : State) : State :=
  let s := popx 7 (popx 6 (popx 5 (popx 4 (popx 3 (popx 2 (popx 1 (popx 0 s)))))))
  exec [.pop .r11, .pop .r10, .pop .r9, .pop .r8, .pop .rcx, .pop .rdx, .pop .rsi, .pop .rdi,
    .addImm 8 .rsp, .ret] s

def trampolineClone (clone : HostFn) (s : State) : State :=
  trampolineCloneRestore (clone.run (trampolineCloneSave s))

def lazyCtxClone (clone : HostFn) (s : State) : State :=
  let s := exec [.cmpMemImm 0 0 .r11] s
  let s := if s.flags.zf then trampolineClone clone (exec [.call .trampolineClone] s) else s
  exec [.load 0 .r11 .r11] s

/-- The saves at the start of every trampoline. -/
def trampolineSave : List Instr :=
  [.push .r15, .pushImm 0, .push .r14, .push .r13, .push .r12, .push .rbx, .push .rbp]

/-- Read `lfi_invoke_info` through `%r13`. -/
def loadInvokeInfo (s : State) : State :=
  let s := exec [.load INVOKE_TARGETFN .r13 .r12, .load INVOKE_BOX .r13 .r14] s
  let s := if b.segueCacheGs then exec [.lea INVOKE_GS_BASE .r13 .rbx] s else s
  exec [.load INVOKE_CTX .r13 .r13, .mov .r13 .r11] s

/-- The arguments that `lfi_trampoline_struct` takes from the context. -/
def loadStructArgs : List Instr :=
  [.load REGS_RDI .r11 .rdi, .load REGS_RSI .r11 .rsi, .load REGS_RDX .r11 .rdx,
    .load REGS_RCX .r11 .rcx, .load REGS_R8 .r11 .r8, .load REGS_R9 .r11 .r9,
    .movdquLoad (REGS_XMM 0) .r11 0, .movdquLoad (REGS_XMM 1) .r11 1,
    .movdquLoad (REGS_XMM 2) .r11 2, .movdquLoad (REGS_XMM 3) .r11 3,
    .movdquLoad (REGS_XMM 4) .r11 4, .movdquLoad (REGS_XMM 5) .r11 5,
    .movdquLoad (REGS_XMM 6) .r11 6, .movdquLoad (REGS_XMM 7) .r11 7]

/-- `.lfi_trampoline_common` up to the switch to the sandbox stack. -/
def commonSwitch : List Instr :=
  [.pushMem REGS_RSP .r11,
    .store .rsp REGS_HOST_SP .r11, .load REGS_RSP .r11 .rsp, .load REGS_BASE .r11 .r14]

/-- The segment base of the sandbox. -/
def commonSegue (s : State) : State :=
  if b.segue then
    segGsSet b .r11 .rbx
      (if b.segueCacheGs then exec [.store .rbx CTX_GS_CACHE .r11] s else s)
  else s

def commonLoad : List Instr :=
  [.load REGS_RETADDR .r11 .r11, .andImm 0xfffffffffffffff0 .rsp, .load 0 .r13 .r13,
    .load REGS_R15 .r13 .r15]

/-- The floating-point control words of the sandbox. -/
def loadFp (ctx : Reg) (s : State) : State :=
  if b.storesOnly then s else exec [.fldcw REGS_FCW ctx, .ldmxcsr REGS_MXCSR ctx] s

def commonPku (s : State) : State :=
  if b.pku then
    exec [.mov .rbp .rdx, .mov .rbx .rcx]
      (pkuBoxAccess b (exec [.mov .rcx .rbx, .mov .rdx .rbp, .load REGS_PKEY .r13 .rcx] s))
  else s

/-- The return address for the sandbox, and its entry point in `%r11`. -/
def commonTarget : List Instr :=
  [.push .r11, .mov .r12 .r11, .andl 0xffffffe0 .r11, .add .r14 .r11]

/-- `.lfi_trampoline_common` from that switch to the jump into the sandbox. -/
def commonEnter (s : State) : State :=
  let s := loadFp b .r13 (exec commonLoad (commonSegue b s))
  let s := exec commonTarget (commonPku b s)
  exec [.jmp .r11] (if b.storesOnly then s else exec zeroRegs s)

def lfiTrampolineCommon (s : State) : State := commonEnter b (exec commonSwitch s)

/-- What `lfi_trampoline` and `lfi_trampoline_struct` have in common before
`lazy_ctx_clone`. -/
def trampolineEntry (s : State) : State :=
  loadInvokeInfo b (getInvokeInfo b .r13 (exec trampolineSave s))

def lfiTrampolineStruct (clone : HostFn) (s : State) : State :=
  lfiTrampolineCommon b (exec loadStructArgs (lazyCtxClone clone (trampolineEntry b s)))

def lfiTrampoline (clone : HostFn) (s : State) : State :=
  lfiTrampolineCommon b (lazyCtxClone clone (trampolineEntry b s))

def lfiTrampolineDirect (clone : HostFn) (s : State) : State :=
  let s := exec
    [.pop .r11, .pop .r10, .xchg 0 .rsp .r15, .pushImm 0, .push .r14, .push .r13, .push .r12,
      .push .rbx, .push .rbp, .mov .r15 .r12, .mov .r11 .r13, .mov .r14 .r15, .mov .r10 .r14] s
  let s := lazyCtxClone clone s
  let s := if b.segueCacheGs then exec [.lea INVOKE_GS_BASE .rbx .rbx] (getInvokeInfo b .rbx s) else s
  lfiTrampolineCommon b s

/-- `lfi_ret_end`, where an aborted callback also goes, with the context in
`%rdi`. -/
def lfiRetEnd : List Instr :=
  [.load REGS_HOST_SP .rdi .rsp, .store .rax REGS_RAX .rdi, .store .rdx REGS_RDX .rdi,
    .movdquStore 0 (REGS_XMM 0) .rdi, .movdquStore 1 (REGS_XMM 1) .rdi,
    .pop .rbp, .store .rbp REGS_RSP .rdi, .cld,
    .pop .rbp, .pop .rbx, .pop .r12, .pop .r13, .pop .r14, .addImm 8 .rsp, .pop .r15, .ret]

def lfiRet (s : State) : State :=
  let s := if b.pku then
      exec [.mov .rdi .rax, .mov .rsi .rdx]
        (exec pkuAllAccess (exec [.mov .rax .rdi, .mov .rdx .rsi] s))
    else s
  exec lfiRetEnd (exec (getCtx .rdi) s)

end LfiRuntime.X64
