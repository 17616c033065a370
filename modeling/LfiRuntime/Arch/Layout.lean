import LfiRuntime.Lib.BlockMemory

/-!
The objects the transition code works on, and the offsets into them that
`arch_asm.h` shares between the architectures.
-/

namespace LfiRuntime.Layout

open LfiRuntime.BlockMemory

/-! The register files have 16, 31 and 32 registers. -/

instance neZero16 : NeZero 16 := ⟨by decide⟩

instance neZero31 : NeZero 31 := ⟨by decide⟩

instance neZero32 : NeZero 32 := ⟨by decide⟩

/-- Code addresses that a transition calls or returns to. -/
inductive Site
  | trampolineClone
  | lfiClone
  | tlsGetAddr
  | tlsdesc
  | callback
  | lfiRetEnd
  | lfiSyscallHandler
deriving DecidableEq, Repr

/-- The host stack and the thread-local data of a thread, a `struct
LFIContext`, its block (runtime call page and `ctxreg` array, offset 0 at the
array), a `struct LFIBox`, a variable that holds a context pointer, a code
address and the return address of a call of it. -/
inductive Block
  | stack (thread : Nat)
  | tls (thread : Nat)
  | ctx (i : Nat)
  | ctxBlock (i : Nat)
  | box (i : Nat)
  | slot (i : Nat)
  | text (s : Site)
  | after (s : Site)
deriving DecidableEq, Repr

/-- The ways into the sandbox. -/
inductive Entry
  | invoke (withStruct : Bool)
  | run
  | callback (withStruct : Bool)
  | runtimeCall
deriving DecidableEq, Repr

abbrev W := Word Block

abbrev Mem := Cells Block

def SYS_SIZE : Int := 8 + 32 * 8

def SYS_CTX_OFFSET : Int := -SYS_SIZE

def REGS_HOST_SP : Int := 0
def REGS_RETADDR : Int := 8

def INVOKE_CTX : Int := 0
def INVOKE_TARGETFN : Int := 8
def INVOKE_BOX : Int := 16
def INVOKE_GS_BASE : Int := 24

end LfiRuntime.Layout
