import LfiRuntime.Lib.FrameStack
import LfiRuntime.Lib.Runs
import LfiRuntime.Arch.Layout

/-!
Transitions between host and sandbox on one context, over the transition code
of any architecture: what its pieces have to do, and the runs they make up.
-/

namespace LfiRuntime.Transitions

open LfiRuntime.BlockMemory
open LfiRuntime.FrameStack
open LfiRuntime.Layout

/-- What a transition leaves on the host stack. -/
inductive Kind
  | invoke
  | callback (withStruct : Bool)
  | syscall
  | run
deriving DecidableEq, Repr

/-- The transitions from the host into the sandbox. -/
def Kind.entersBox : Kind → Bool
  | .invoke | .run => true
  | .callback _ | .syscall => false

/-- An architecture: its machine state and its transition code. Code that calls
out is cut at the call: `lfiCallback` stops where the host function starts and
`lfiCallbackEnd` goes on where it returns. -/
structure Arch (S : Type) where
  mem : S → Mem
  sp : S → W
  pc : S → W
  thread : S → Nat
  /-- The register that points at the block of the context in the sandbox. -/
  ctxReg : S → W
  arg0 : S → W
  arg1 : S → W
  /-- The registers a C function keeps for its caller. -/
  kept : S → List W
  /-- Those a sandbox function keeps. -/
  boxKept : S → List W
  /-- The return address of a function, at its entry. -/
  retAddr : S → W
  /-- How far its return moves the stack pointer. -/
  retPop : Int
  /-- The offsets of the saved sandbox stack pointer and of `abort_callback`. -/
  spCell : Int
  abortCell : Int
  invokeInfo : Nat → W
  /-- Cells that link a context to its block, and to a thread it runs on. -/
  links : Nat → List (W × W)
  bound : Nat → Nat → List (W × W)
  /-- How far below the host stack pointer a frame starts, and what it holds. -/
  size : Kind → Int
  words : Nat → Kind → S → List W
  /-- A callback leaves the sandbox stack pointer in `host_sp`, and its abort
  puts `host_sp` right. -/
  swaps : Bool
  lfiTrampoline : Bool → S → S
  lfiRet : S → S
  lfiCallback : Bool → S → S
  lfiCallbackEnd : Bool → S → S
  lfiSyscallEntry : S → S
  lfiSyscallEnd : S → S
  lfiCtxEntry : S → S
  lfiCtxEnd : S → S

variable {S : Type} (A : Arch S) (c th : Nat)

/-- A position on the host stack. -/
abbrev hostStack (o : Int) : W := .ptr (.stack th) o

def Arch.hostSp (s : S) : W := A.mem s (.ptr (.ctx c) REGS_HOST_SP)

def Arch.savedSp (s : S) : W := A.mem s (.ptr (.ctx c) A.spCell)

def Arch.Aborted (s : S) : Prop := A.mem s (.ptr (.ctx c) A.abortCell) = .int 1#64

/-- The cells of the host stack from `k` up are the same. -/
def Arch.SameFrom (k : Int) (s t : S) : Prop :=
  ∀ i, k ≤ i → A.mem t (hostStack th i) = A.mem s (hostStack th i)

/-- The thread runs with a context whose saved stack pointer is an address of
the sandbox. -/
structure Attached (s : S) : Prop where
  thread : A.thread s = th
  linked : ∀ p ∈ A.links c, A.mem s p.1 = p.2
  bound : ∀ p ∈ A.bound th c, A.mem s p.1 = p.2
  saved : ∃ n, A.savedSp c s = .int n

/-- In the sandbox the reserved register and the stack pointer are its own. -/
structure InBox (s : S) : Prop extends Attached A c th s where
  ctxReg : A.ctxReg s = .ptr (.ctxBlock c) 0
  boxSp : ∃ n, A.sp s = .int n

/-- A call of a trampoline by `LFI_INVOKE` on the context, with the context
pointer kept in a variable. -/
structure Invoked (s : S) (k : Int) : Prop where
  thread : A.thread s = th
  sp : A.sp s = hostStack th k
  linked : ∀ p ∈ A.links c, A.mem s p.1 = p.2
  saved : ∃ n, A.savedSp c s = .int n
  slot : ∃ blk o, A.mem s ((A.invokeInfo th).offset INVOKE_CTX) = .ptr blk o ∧
    A.mem s (.ptr blk o) = .ptr (.ctx c) 0 ∧
    -- a variable outside the context, `lfi_invoke_info` and the free stack
    blk ≠ .ctx c ∧ .ptr blk o ≠ (A.invokeInfo th).offset INVOKE_GS_BASE ∧
    ∀ i < k, Word.ptr blk o ≠ hostStack th i

/-- The call of `lfi_ctx_entry` by `lfi_ctx_run`. -/
structure Started (s : S) (k : Int) : Prop extends Attached A c th s where
  sp : A.sp s = hostStack th k
  arg0 : A.arg0 s = .ptr (.ctx c) 0
  arg1 : A.arg1 s = .ptr (.ctx c) REGS_HOST_SP

/-- From `s`, code pushed a frame below `k`. -/
structure Pushed (kind : Kind) (k : Int) (s t : S) : Prop where
  frame : (A.mem t).Holds (hostStack th (k - A.size kind)) (A.words c kind s)
  same : A.SameFrom th k s t

/-- A function entered in `e` has returned in `t`. -/
structure Returns (e t : S) : Prop where
  sp : A.sp t = (A.sp e).offset A.retPop
  kept : A.kept t = A.kept e
  pc : A.pc t = A.retAddr e

/-- A host function that a transition called above its frame has returned. -/
structure Returning (kind : Kind) (e : S) (k : Int) (enter : S → S) (s : S) : Prop where
  entry : InBox A c th e
  entrySp : A.hostSp c e = hostStack th k
  attached : Attached A c th s
  sp : A.sp s = hostStack th (k - A.size kind + A.retPop)
  kept : A.kept s = A.kept (enter e)
  frame : (A.mem s).Holds (hostStack th (k - A.size kind)) (A.words c kind e)

/-- What the pieces of the transition code do. -/
structure Arch.Lawful : Prop where
  linkCells : ∀ p ∈ A.links c ++ A.bound th c, ∃ b o, p.1 = .ptr b o ∧ ¬(b = .ctxBlock c ∧ 0 ≤ o)
  size_pos : ∀ kind, 0 < A.size kind
  size_le : ∀ kind (e : S), kind.entersBox → A.size kind ≤ 8 * (A.words c kind e).length
  le_size : ∀ kind (e : S), ¬kind.entersBox → 8 * (A.words c kind e).length ≤ A.size kind
  invoke : ∀ ws s k, Invoked A c th s k →
    let t := A.lfiTrampoline ws s
    InBox A c th t ∧ Pushed A c th .invoke k s t ∧
      A.hostSp c t = hostStack th (k - A.size .invoke)
  ret : ∀ s e k, InBox A c th s → Invoked A c th e k →
    A.hostSp c s = hostStack th (k - A.size .invoke) →
    (A.mem s).Holds (hostStack th (k - A.size .invoke)) (A.words c .invoke e) →
    let t := A.lfiRet s
    Attached A c th t ∧ Returns A e t ∧ A.savedSp c t = A.savedSp c e ∧
      A.hostSp c t = A.hostSp c s ∧ A.SameFrom th (k - A.size .invoke) s t
  callback : ∀ ws s k, InBox A c th s → A.hostSp c s = hostStack th k →
    let t := A.lfiCallback ws s
    Attached A c th t ∧ Pushed A c th (.callback ws) k s t ∧
      A.sp t = hostStack th (k - A.size (.callback ws)) ∧ A.savedSp c t = A.sp s ∧
      A.hostSp c t = if A.swaps then A.sp s else A.hostSp c s
  callbackEnd : ∀ ws s e k, Returning A c th (.callback ws) e k (A.lfiCallback ws) s →
    ¬A.Aborted c s →
    let t := A.lfiCallbackEnd ws s
    InBox A c th t ∧ A.sp t = (A.savedSp c s).offset A.retPop ∧ A.boxKept t = A.boxKept e ∧
      A.savedSp c t = A.savedSp c e ∧ A.hostSp c t = hostStack th k ∧ A.SameFrom th k s t
  abort : ∀ ws s e k e₀ k₀, Returning A c th (.callback ws) e k (A.lfiCallback ws) s →
    A.Aborted c s → Invoked A c th e₀ k₀ → k = k₀ - A.size .invoke →
    (A.mem s).Holds (hostStack th k) (A.words c .invoke e₀) →
    (A.swaps = false → A.hostSp c s = hostStack th k) →
    let t := A.lfiCallbackEnd ws s
    Attached A c th t ∧ Returns A e₀ t ∧ A.savedSp c t = A.savedSp c e₀ ∧
      A.hostSp c t = hostStack th k ∧ A.SameFrom th k s t ∧
      A.mem t (.ptr (.ctx c) A.abortCell) = .int 0#64
  syscall : ∀ s k, InBox A c th s → A.hostSp c s = hostStack th k →
    let t := A.lfiSyscallEntry s
    Attached A c th t ∧ Pushed A c th .syscall k s t ∧
      A.sp t = hostStack th (k - A.size .syscall) ∧ A.hostSp c t = A.hostSp c s
  syscallEnd : ∀ s e k, Returning A c th .syscall e k A.lfiSyscallEntry s →
    let t := A.lfiSyscallEnd s
    InBox A c th t ∧ A.hostSp c t = A.hostSp c s ∧ A.SameFrom th k s t
  run : ∀ s k, Started A c th s k →
    let t := A.lfiCtxEntry s
    InBox A c th t ∧ Pushed A c th .run k s t ∧
      A.hostSp c t = hostStack th (k - A.size .run)
  exit : ∀ s e k, Attached A c th s → A.arg0 s = .ptr (.ctx c) 0 → Started A c th e k →
    A.hostSp c s = hostStack th (k - A.size .run) →
    (A.mem s).Holds (hostStack th (k - A.size .run)) (A.words c .run e) →
    let t := A.lfiCtxEnd s
    Attached A c th t ∧ Returns A e t ∧ A.hostSp c t = A.hostSp c s ∧
      A.SameFrom th (k - A.size .run) s t

end LfiRuntime.Transitions
