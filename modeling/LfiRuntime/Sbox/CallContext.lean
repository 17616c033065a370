import Mathlib.Tactic
import LfiRuntime.Lib.Brackets
import LfiRuntime.Linux.Align

/-!
The sandbox stack as the host uses it: `CallContext<LFI>`, the stack arguments of
`call_ptr`, and the callbacks that the sandbox makes meanwhile. All of it moves
the stack pointer that the context of the thread has saved. Host objects are
apart from the memory of the sandbox.
-/

namespace LfiRuntime.SandboxStack

open LfiRuntime.Align
open LfiRuntime.Brackets
open LfiRuntime.Runs

abbrev Word := BitVec 64

inductive Isa
  | x64
  | arm64
deriving DecidableEq, Repr

def maxIntRegArgs : Isa → Nat
  | .x64 => 6
  | .arm64 => 8

def maxFloatRegArgs : Nat := 8

/-- An argument by its `is_float_arg`, as the 64 bits that are passed. -/
inductive Arg
  | int (val : Word)
  | float (val : Word)
deriving DecidableEq, Repr

structure MarshalResult where
  stackArgs : List Word
  intIdx : Nat
  floatIdx : Nat
deriving DecidableEq, Repr

def marshalArg (isa : Isa) (r : MarshalResult) : Arg → MarshalResult
  | .float val =>
    if r.floatIdx < maxFloatRegArgs then { r with floatIdx := r.floatIdx + 1 }
    else { r with stackArgs := r.stackArgs ++ [val] }
  | .int val =>
    if r.intIdx < maxIntRegArgs isa then { r with intIdx := r.intIdx + 1 }
    else { r with stackArgs := r.stackArgs ++ [val] }

def marshalArgsLfi (isa : Isa) (args : List Arg) : MarshalResult :=
  args.foldl (marshalArg isa) ⟨[], 0, 0⟩

/-- Bytes of the sandbox stack, and what they are aligned to. -/
structure Block where
  addr : Word
  size : Nat
  align : Nat
deriving DecidableEq, Repr

structure Copyback where
  hostPtr : Nat
  sboxPtr : Block
deriving DecidableEq, Repr

/-- A `CallContext<LFI>`. The code does not have `blocks`, the blocks that it has
handed out, and `copied`, the copybacks that have run. -/
structure CallContext where
  savedSp : Word
  copybacks : List Copyback
  finalized : Bool
  blocks : List Block
  copied : List Copyback
deriving DecidableEq, Repr

/-- What is on the stack of the host thread: a context in scope, a call with the
`saved_sp` of `call_ptr` and the word that the trampoline pushes, or a callback
with the word that its entry pushes. -/
inductive Frame
  | context (c : CallContext)
  | call (savedSp staged : Word)
  | callback (oldSp : Word)
deriving DecidableEq, Repr

/-- The thread, innermost frame first. `sp` is the saved stack pointer of its
context. The code does not have `touched`, the bytes of the sandbox stack that
the host has read or written, and `gone`, the contexts that went out of scope. -/
structure State where
  sp : Word
  mem : Word → UInt8
  objects : Nat → Nat → UInt8
  frames : List Frame
  touched : List Block
  gone : List CallContext

namespace State

def start (sp : Word) (mem : Word → UInt8) (objects : Nat → Nat → UInt8) : State :=
  ⟨sp, mem, objects, [], [], []⟩

/-- `*sbox_ptr = host_ref`. -/
def write (s : State) (b : Block) (bytes : Nat → UInt8) : State :=
  { s with
    mem := fun a => if (a - b.addr).toNat < b.size then bytes (a - b.addr).toNat else s.mem a
    touched := b :: s.touched }

/-- `*host_ptr = *sbox_ptr`. -/
def copyBack (s : State) (cb : Copyback) : State :=
  { s with
    objects := Function.update s.objects cb.hostPtr fun i =>
      if i < cb.sboxPtr.size then s.mem (cb.sboxPtr.addr + BitVec.ofNat 64 i)
      else s.objects cb.hostPtr i
    touched := cb.sboxPtr :: s.touched }

def stackPush (s : State) (size align : Nat) : Block × State :=
  let sp := (s.sp - BitVec.ofNat 64 size) &&& ~~~(BitVec.ofNat 64 align - 1)
  (⟨sp, size, align⟩, { s with sp := sp })

def stackSave (s : State) : Word := s.sp

def stackRestore (s : State) (sp : Word) : State := { s with sp := sp }

def byteOf (w : Word) (i : Nat) : UInt8 := UInt8.ofBitVec (w.extractLsb' (8 * i) 8)

/-- The loop of `stage_stack_args`. -/
def writeArgs (s : State) (addr : Word) : List Word → State
  | [] => s
  | w :: ws => writeArgs (s.write ⟨addr, 8, 8⟩ (byteOf w)) (addr + 8) ws

def stageStackArgs (s : State) (stackArgs : List Word) : State :=
  if stackArgs = [] then s
  else
    let aligned := (s.sp - BitVec.ofNat 64 (8 * stackArgs.length)) &&& ~~~0xF#64
    { s.writeArgs aligned stackArgs with sp := aligned }

end State

namespace CallContext

def new (s : State) : CallContext := ⟨s.stackSave, [], false, [], []⟩

/-- A parameter on the sandbox stack, which is written or copied back or both. -/
def param (writes copies : Bool) (c : CallContext) (s : State) (size align host : Nat) :
    CallContext × State :=
  let p := s.stackPush size align
  ({ c with
      blocks := p.1 :: c.blocks
      copybacks := if copies then c.copybacks ++ [⟨host, p.1⟩] else c.copybacks },
    if writes then p.2.write p.1 (p.2.objects host) else p.2)

def out := param false true

def «in» := param true false

def inout := param true true

def finalize (c : CallContext) (s : State) : CallContext × State :=
  if c.finalized then (c, s)
  else ({ c with finalized := true, copied := c.copied ++ c.copybacks },
    c.copybacks.foldl State.copyBack s)

end CallContext

inductive Param
  | out
  | «in»
  | inout
deriving DecidableEq, Repr

def Param.code : Param → CallContext → State → Nat → Nat → Nat → CallContext × State
  | .out => CallContext.out
  | .in => CallContext.in
  | .inout => CallContext.inout

/-- Whether the block is copied back, and whether it is written. -/
def Param.copies : Param → Bool
  | .in => false
  | _ => true

def Param.writes : Param → Bool
  | .out => false
  | _ => true

/-- The three kinds are one, with these two choices. -/
theorem Param.code_eq (p : Param) : p.code = CallContext.param p.writes p.copies := by
  cases p <;> rfl

def stackArgs (isa : Isa) (args : List Arg) : List Word := (marshalArgsLfi isa args).stackArgs

/-- What the host pushes or reads besides the stack arguments. On x64 the
trampoline aligns the stack and pushes the return address. -/
def enterSp (isa : Isa) (sp : Word) : Word :=
  match isa with
  | .x64 => (sp &&& ~~~0xF#64) - 8
  | .arm64 => sp

/-- The contexts are named by their place in the frames. -/
inductive Op
  | construct
  | param (k : Nat) (p : Param) (size align host : Nat)
  | finalize (k : Nat)
  | destroy
  | call (args : List Arg)
  | box (mem : Word → UInt8)
  | callback (sp : Word)
  | callbackEnd
  | abort
  | ret

/-- Host code runs, and not the sandbox in a call. -/
def OnHost : List Frame → Prop
  | .call _ _ :: _ => False
  | _ => True

/-- A context changes, and the thread with it. -/
def State.setContext (s : State) (k : Nat) (r : CallContext × State) : State :=
  { r.2 with frames := s.frames.set k (.context r.1) }

/-- The steps. `abort` is the end of a callback that has asked for it, on x64: the call
around it returns. On arm64 a callback that has made a call does not get back to it.
A `call` with a context is the call and then its `finalize`. -/
inductive Step (isa : Isa) : State → Op → State → Prop
  | construct {s} (hhost : OnHost s.frames) :
      Step isa s .construct { s with frames := .context (.new s) :: s.frames }
  | param {s k c} (p : Param) (size align host : Nat) (hhost : OnHost s.frames)
      (hk : s.frames[k]? = some (.context c)) :
      Step isa s (.param k p size align host) (s.setContext k (p.code c s size align host))
  | finalize {s k c} (hhost : OnHost s.frames) (hk : s.frames[k]? = some (.context c)) :
      Step isa s (.finalize k) (s.setContext k (c.finalize s))
  | destroy {s c fs} (hfs : s.frames = .context c :: fs) :
      Step isa s .destroy
        { (c.finalize s).2.stackRestore c.savedSp with
          frames := fs, gone := (c.finalize s).1 :: s.gone }
  | call {s} (args : List Arg) (hhost : OnHost s.frames) :
      Step isa s (.call args)
        { s.stageStackArgs (marshalArgsLfi isa args).stackArgs with
          frames := .call s.sp (s.stageStackArgs (marshalArgsLfi isa args).stackArgs).sp ::
            s.frames }
  | box {s w staged fs} (mem : Word → UInt8) (hfs : s.frames = .call w staged :: fs) :
      Step isa s (.box mem) { s with mem := mem }
  | callback {s w staged fs} (sp : Word) (hfs : s.frames = .call w staged :: fs) :
      Step isa s (.callback sp) { s with sp := sp, frames := .callback s.sp :: s.frames }
  | callbackEnd {s old fs} (hfs : s.frames = .callback old :: fs) :
      Step isa s .callbackEnd { s with sp := old, frames := fs }
  | abort {s old w staged fs} (hisa : isa = .x64)
      (hfs : s.frames = .callback old :: .call w staged :: fs) :
      Step isa s .abort { (s.stackRestore staged).stackRestore w with frames := fs }
  | ret {s w staged fs} (hfs : s.frames = .call w staged :: fs) :
      Step isa s .ret { (s.stackRestore staged).stackRestore w with frames := fs }

/-- A push that does not wrap. -/
theorem toNat_stackPush {s : State} {size align : Nat} (halign : IsAlign align)
    (hle : size ≤ s.sp.toNat) :
    (s.stackPush size align).1.addr.toNat =
      s.sp.toNat - size - (s.sp.toNat - size) % align := by
  have hlt := s.sp.isLt
  have hsub : (s.sp - BitVec.ofNat 64 size).toNat = s.sp.toNat - size := by
    rw [BitVec.toNat_sub, BitVec.toNat_ofNat]
    omega
  rw [State.stackPush, toNat_and_not_mask halign, hsub]

theorem finalized_finalize (c : CallContext) (s : State) : (c.finalize s).1.finalized = true := by
  rw [CallContext.finalize]
  split
  · assumption
  · rfl

end LfiRuntime.SandboxStack
