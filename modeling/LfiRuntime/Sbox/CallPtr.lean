import LfiRuntime.Arch.LazyClone
import LfiRuntime.Arch.X64.StructEntry
import LfiRuntime.Arch.Arm64.StructEntry
import LfiRuntime.Sbox.CallContext

/-!
A call of a sandbox function by `call_ptr`: its arguments in the registers of the
context and on the sandbox stack, and what the function finds of them.
-/

namespace LfiRuntime.CallPtr

open LfiRuntime.Align
open LfiRuntime.BlockMemory
open LfiRuntime.Layout
open LfiRuntime.SandboxStack

/-! `LFIRegs`, at the start of a context. -/

def spCell : Isa → Int
  | .x64 => X64.REGS_RSP
  | .arm64 => Arm64.REGS_SP

def intArgCells : Isa → List Int
  | .x64 => X64.intArgCells
  | .arm64 => Arm64.intArgCells

def floatArgCells : Isa → List Int
  | .x64 => X64.xmmArgCells
  | .arm64 => Arm64.vecArgCells

def setArg (cells : List Int) (c : Nat) (m : Mem) (index : Nat) (value : Word) : Mem :=
  match cells[index]? with
  | some o => m.set (.ptr (.ctx c) o) (.int value)
  | none => m

def setIntArg (isa : Isa) : Nat → Mem → Nat → Word → Mem := setArg (intArgCells isa)

def setFloatArg (isa : Isa) : Nat → Mem → Nat → Word → Mem := setArg (floatArgCells isa)

/-- `marshal_arg` with the registers that it sets. -/
def marshalArgRegs (isa : Isa) (c : Nat) (p : Mem × MarshalResult) (arg : Arg) :
    Mem × MarshalResult :=
  (match arg with
    | .float val =>
      if p.2.floatIdx < maxFloatRegArgs then setFloatArg isa c p.1 p.2.floatIdx val else p.1
    | .int val =>
      if p.2.intIdx < maxIntRegArgs isa then setIntArg isa c p.1 p.2.intIdx val else p.1,
    marshalArg isa p.2 arg)

def marshalArgsRegs (isa : Isa) (c : Nat) (args : List Arg) (m : Mem) : Mem × MarshalResult :=
  args.foldl (marshalArgRegs isa c) (m, ⟨[], 0, 0⟩)

def writeSlots (m : Mem) (addr : Word) : List Word → Mem
  | [] => m
  | w :: ws => writeSlots (m.set (.int addr) (.int w)) (addr + 8) ws

/-- `stage_stack_args`, with the saved stack pointer that it has read. -/
def stageStackArgs (isa : Isa) (c : Nat) (sp : Word) (stackArgs : List Word) (m : Mem) : Mem :=
  if stackArgs = [] then m
  else
    let aligned := (sp - BitVec.ofNat 64 (8 * stackArgs.length)) &&& ~~~0xF#64
    (writeSlots m aligned stackArgs).set (.ptr (.ctx c) (spCell isa)) (.int aligned)

/-- What `call_ptr` makes of the memory before it calls `lfi_trampoline_struct`. -/
def stageCall (isa : Isa) (c : Nat) (sp : Word) (args : List Arg) (m : Mem) : Mem :=
  let r := marshalArgsRegs isa c args m
  stageStackArgs isa c sp r.2.stackArgs r.1

/-! Calling conventions. -/

/-- A value of a C type that an argument register holds. -/
structure Value where
  float : Bool
  size : Nat
  size_le : size ≤ 8
  bits : BitVec (8 * size)

/-- `memcpy` into the low bytes of a zero. -/
def Value.arg (v : Value) : Arg :=
  if v.float then .float (v.bits.setWidth 64) else .int (v.bits.setWidth 64)

/-- A function at its first instruction, as its calling convention sees it: the registers
of both kinds of arguments, and where those on the stack start. -/
structure Callee where
  regs : Bool → List W
  args : W
  retAddr : W
  mem : Mem

/-- The words at which the function looks for arguments of these kinds: each in the next
register of its kind, where there is one, and in the next slot otherwise. -/
def fetch (m : Mem) : List Bool → (Bool → List W) → W → List W
  | [], _, _ => []
  | k :: ks, regs, slot =>
    match regs k with
    | v :: vs => v :: fetch m ks (Function.update regs k vs) slot
    | [] => m slot :: fetch m ks regs (slot.offset 8)

/-- The function gets the value out of the word. -/
def Takes (w : W) (v : Value) : Prop := ∃ n, w = .int n ∧ n.setWidth (8 * v.size) = v.bits

def calleeX64 (t : X64.State) : Callee where
  regs float := if float then X64.xmmArgs.map fun i => (t.xmm i).1 else X64.intArgs.map t.reg
  args := (t.reg .rsp).offset 8
  retAddr := t.mem (t.reg .rsp)
  mem := t.mem

def calleeArm64 (t : Arm64.State) : Callee where
  regs float := if float then Arm64.vecArgs.map fun i => (t.v i).1 else Arm64.intRegArgs.map t.x
  args := t.sp
  retAddr := t.x 30
  mem := t.mem

/-- The function finds what the call has passed. `m` is the memory before the call. -/
structure Arrived (c : Nat) (values : List Value) (sp : Word) (m : Mem) (e : Callee) : Prop where
  args : List.Forall₂ Takes (fetch e.mem (values.map Value.float) e.regs e.args) values
  aligned : ∃ n, e.args = .int n ∧ 16 ∣ n.toNat
  retAddr : e.retAddr = m (.ptr (.ctx c) REGS_RETADDR)
  -- the cells that reach the saved stack pointer or lie above it
  kept : ∀ a, sp.toNat < a.toNat + 8 → e.mem (.int a) = m (.int a)

def Arrives : Isa → List Value → Word → Prop
  | .x64, values, sp => ∀ (b : X64.Build) (clone : X64.HostFn) (c : Nat) (s : X64.State),
      X64.Called b c sp s → Arrived c values sp s.mem (calleeX64 (X64.lfiTrampolineStruct b clone
        { s with mem := stageCall .x64 c sp (values.map Value.arg) s.mem }))
  | .arm64, values, sp => ∀ (b : Arm64.Build) (clone : Arm64.HostFn) (c : Nat) (s : Arm64.State),
      Arm64.Called b c sp s → Arrived c values sp s.mem (calleeArm64 (Arm64.lfiTrampolineStruct b
        clone { s with mem := stageCall .arm64 c sp (values.map Value.arg) s.mem }))

/-- How many of the arguments find no register. -/
def nStack (isa : Isa) (values : List Value) : Nat :=
  (values.countP (!·.float) - maxIntRegArgs isa) + (values.countP (·.float) - maxFloatRegArgs)

def maxArgs : Nat := 10

/-- The call has room below the stack pointer. The code for AArch64 aligns the stack
pointer only where it passes arguments on the stack. -/
def Fits (isa : Isa) (values : List Value) (sp : Word) : Prop :=
  match isa with
  | .x64 => 8 * nStack isa values + 16 ≤ sp.toNat
  | .arm64 => 8 * nStack isa values ≤ sp.toNat ∧ (nStack isa values = 0 → 16 ∣ sp.toNat)

end LfiRuntime.CallPtr
