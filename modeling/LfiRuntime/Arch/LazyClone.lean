import LfiRuntime.Arch.X64.LazyClone
import LfiRuntime.Arch.Arm64.LazyClone

/-!
Lazy cloning: whether the first invocation of a thread, which creates its
context, looks to the sandbox function like any other.
-/

namespace LfiRuntime.LazyClone

open LfiRuntime.BlockMemory
open LfiRuntime.Layout

/-- On x86-64 the slow path reverses the vector arguments; on AArch64 it leaves
the indirect result register to `lfi_clone`. It is transparent exactly when
neither shows. -/
theorem lazyClone_transparent_iff {b : X64.Build} (clone : X64.HostFn) {s t : X64.State}
    (h : X64.LazyPair b s t) {b' : Arm64.Build} (clone' : Arm64.HostFn) {s' t' : Arm64.State}
    (h' : Arm64.LazyPair b' s' t') :
    (X64.Transparent b clone s t ↔ ∀ i ∈ X64.xmmArgs, s.xmm i = s.xmm (7 - i)) ∧
    (Arm64.Transparent b' clone' s' t' ↔
      (clone'.run (Arm64.lazyCloneCall b' s')).x 8 = s'.x 8) :=
  ⟨X64.transparent_iff clone h, Arm64.transparent_iff clone' h'⟩

/-! A first invocation and a later one, through the pointer in `slot 0`. -/

def callMem (ctx : W) : Mem := fun a =>
  if a = .ptr (.tls 0) (16 + INVOKE_CTX) then .ptr (.slot 0) 0
  else if a = .ptr (.slot 0) 0 then ctx
  else .int 0

def x64Build : X64.Build where
  pku := false
  segue := false
  segueCacheGs := false
  storesOnly := false
  gottpoff := 16
  tls := .exec

def x64Call (ctx : W) : X64.State where
  reg r := if r = .rsp then .ptr (.stack 0) 0 else .int 0
  xmm i := if i = 0 then (.int 0x3ff0000000000000, .int 0) else (.int 0, .int 0)
  mem := callMem ctx
  flags := .logic (.int 0)
  df := false
  fcw := .int 0
  mxcsr := .int 0
  gsBase := .int 0
  pkru := .int 0
  pc := .int 0
  thread := 0

/-- `lfi_clone` of a thread whose context pointer is in `slot 0`. -/
def x64Clone : X64.HostFn where
  run s := ((s.setMem (.ptr (.slot 0) 0) (.ptr (.ctx 0) 0)).drop).setPc s.top
  returns s := by
    constructor <;> simp +contextual [X64.State.drop, X64.State.top, X64.calleeSaved,
      Cells.set_apply]

theorem x64Call_pair :
    X64.LazyPair x64Build (x64Call (.int 0)) (x64Call (.ptr (.ctx 0) 0)) := by
  have hinvoked : ∀ ctx, X64.Invoked x64Build (x64Call ctx) 0 (.slot 0) 0 := by
    intro ctx
    constructor
    · rfl
    · rfl
    · intro i _
      simp
  refine ⟨⟨0, .slot 0, 0, hinvoked _, rfl⟩, ⟨0, .slot 0, 0, hinvoked _, ?_⟩, ?_⟩
  · simp [x64Call, callMem]
  · exact ⟨fun _ _ => rfl, fun _ _ => rfl⟩

def arm64Build : Arm64.Build where
  storesOnly := false
  gottprel := 16
  tls := .exec

def arm64Call (ctx : W) : Arm64.State where
  x n := if n = 8 then .ptr (.stack 0) 64 else .int 0
  sp := .ptr (.stack 0) 0
  v _ := (.int 0, .int 0)
  mem := callMem ctx
  flags := .logic (.int 0)
  fpsr := .int 0
  pc := .int 0
  thread := 0

/-- `lfi_clone` with a scratch value left in the indirect result register. -/
def arm64Clone : Arm64.HostFn where
  run s := (((s.setMem (.ptr (.slot 0) 0) (.ptr (.ctx 0) 0)).setReg (.x 8) (.int 0)).setPc
    (s.x 30))
  returns s := by
    constructor <;> simp +contextual [Arm64.calleeSaved, Cells.set_apply]

theorem arm64Call_pair :
    Arm64.LazyPair arm64Build (arm64Call (.int 0)) (arm64Call (.ptr (.ctx 0) 0)) := by
  have hinvoked : ∀ ctx, Arm64.Invoked arm64Build (arm64Call ctx) 0 (.slot 0) 0 := by
    intro ctx
    constructor
    · rfl
    · rfl
    · intro i _
      simp
  refine ⟨⟨0, .slot 0, 0, hinvoked _, rfl⟩, ⟨0, .slot 0, 0, hinvoked _, ?_⟩, ?_⟩
  · simp [arm64Call, callMem]
  · exact ⟨fun _ _ => rfl, fun _ _ => rfl⟩

theorem lazyClone_transparent_at_call :
    (X64.Transparent x64Build x64Clone (x64Call (.int 0)) (x64Call (.ptr (.ctx 0) 0)) ↔
      ∀ i ∈ X64.xmmArgs,
        (x64Call (.int 0)).xmm i = (x64Call (.int 0)).xmm (7 - i)) ∧
    (Arm64.Transparent arm64Build arm64Clone (arm64Call (.int 0))
        (arm64Call (.ptr (.ctx 0) 0)) ↔
      (arm64Clone.run (Arm64.lazyCloneCall arm64Build (arm64Call (.int 0)))).x 8 =
        (arm64Call (.int 0)).x 8) :=
  lazyClone_transparent_iff x64Clone x64Call_pair arm64Clone arm64Call_pair

/-- A first call with 1.0 in `xmm0` and 0.0 in the other vector registers, and
a first call of a function that returns a structure through `x8`. -/
theorem lazyClone_not_transparent :
    ¬X64.Transparent x64Build x64Clone (x64Call (.int 0)) (x64Call (.ptr (.ctx 0) 0)) ∧
    ¬Arm64.Transparent arm64Build arm64Clone (arm64Call (.int 0))
        (arm64Call (.ptr (.ctx 0) 0)) := by
  constructor
  · intro h
    have hpal := (X64.transparent_iff x64Clone x64Call_pair).mp h 0 (by decide)
    simp [x64Call] at hpal
  · intro h
    have hkept := (Arm64.transparent_iff arm64Clone arm64Call_pair).mp h
    simp [arm64Clone, arm64Call] at hkept

end LfiRuntime.LazyClone
