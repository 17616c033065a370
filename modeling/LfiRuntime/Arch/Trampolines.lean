import LfiRuntime.Arch.LazyClone
import LfiRuntime.Arch.X64.Trampolines
import LfiRuntime.Arch.Arm64.Trampolines

/-!
Whether the three trampolines enter the sandbox in the same way.
-/

namespace LfiRuntime.Trampolines

open LfiRuntime.BlockMemory
open LfiRuntime.Layout
open LfiRuntime.LazyClone

/-- On x86-64 the direct trampoline fails only where it calls `__tls_get_addr` while a scratch
register holds the context. On AArch64 it jumps to its first argument instead of its third. -/
theorem trampolines_agree_iff {b : X64.Build} (clone : X64.HostFn) {i : Passed}
    {s₁ s₂ s₃ : X64.State} (h : X64.Calls b i s₁ s₂ s₃) {b' : Arm64.Build}
    (clone' : Arm64.HostFn) {i' : Passed} {t₁ t₂ t₃ : Arm64.State}
    (h' : Arm64.Calls b' i' t₁ t₂ t₃) :
    ((∀ g, X64.Agree (b.withTlsGetAddr g) clone s₁ s₂ s₃) ↔
      ¬(b.segueCacheGs = true ∧ b.CallsTls)) ∧
    Arm64.arrival (Arm64.lfiTrampolineStruct b' clone' t₂) =
      Arm64.arrival (Arm64.lfiTrampoline b' clone' t₁) ∧
    ¬Arm64.Agree b' clone' t₁ t₂ t₃ :=
  ⟨X64.agree_iff clone h, Arm64.withStruct_agrees clone' h', Arm64.direct_disagrees clone' h'⟩

/-! A call of the function at 0x1000, prepared for all of them. -/

def sharedMem : Mem := fun a =>
  if a ∈ [.ptr (.tls 0) (16 + INVOKE_TARGETFN), .ptr (.stack 0) 16] then .int 0x1000
  else if a = .ptr (.stack 0) 0 then .ptr (.slot 0) 0
  else callMem (.ptr (.ctx 0) 0) a

def passed : Passed where
  ctx := 0
  slot := .slot 0
  off := 0
  box := .int 0
  target := 0x1000
  sp := 0
  base := 0
  ctxReg := .int 0
  retAddr := .int 0
  ints := X64.intArgs.map fun _ => .int 0
  floats := X64.xmmArgs.map fun _ => .int 0

def x64Shared : X64.State :=
  { x64Call (.int 0) with mem := sharedMem, xmm := fun _ => (.int 0, .int 0) }

theorem x64Shared_calls : X64.Calls x64Build passed x64Shared x64Shared x64Shared := by
  have hstored : X64.Stored passed x64Shared.mem := by
    constructor <;> simp [passed, x64Shared, sharedMem, callMem]
  have hinvoke : X64.InvokeCall x64Build passed x64Shared := by
    refine ⟨⟨0, ⟨rfl, rfl, ?_⟩⟩, ?_, rfl, rfl, hstored⟩
    · intro j _
      simp [passed]
    · simp [passed, X64.invokeInfo]
  have hdirect : ∃ k nStack, x64Shared.reg .rsp = .ptr (.stack x64Shared.thread) k ∧
      x64Shared.mem.Holds (.ptr (.stack x64Shared.thread) k)
        [.ptr passed.slot passed.off, passed.box, .int passed.target, nStack] ∧
      X64.OffStack x64Shared (k + 32) (.ptr passed.slot passed.off) := by
    refine ⟨0, .int 0, rfl, ?_, ?_⟩
    · simp [Cells.Holds, passed, x64Shared, sharedMem, callMem, x64Call]
    · intro j _
      simp [passed]
  exact ⟨⟨hinvoke, rfl, rfl⟩, ⟨hinvoke, rfl, rfl⟩, ⟨hdirect, hinvoke.info, hstored, rfl, rfl⟩⟩

def arm64Passed : Passed :=
  { passed with ints := Arm64.intArgs.map fun _ => .int 0 }

def arm64Shared : Arm64.State :=
  { arm64Call (.int 0) with mem := sharedMem, x := fun _ => .int 0 }

theorem arm64Shared_calls :
    Arm64.Calls arm64Build arm64Passed arm64Shared arm64Shared arm64Shared := by
  have hstored : Arm64.Stored arm64Passed arm64Shared.mem := by
    constructor <;> simp [arm64Passed, passed, arm64Shared, sharedMem, callMem]
  have hinvoke : Arm64.InvokeCall arm64Build arm64Passed arm64Shared := by
    refine ⟨⟨0, ⟨rfl, rfl, ?_⟩⟩, rfl, rfl, hstored⟩
    intro j _
    simp [arm64Passed, passed]
  have hdirect : ∃ k nStack, arm64Shared.sp = .ptr (.stack arm64Shared.thread) k ∧
      arm64Shared.mem.Holds (.ptr (.stack arm64Shared.thread) k)
        [.ptr arm64Passed.slot arm64Passed.off, arm64Passed.box, .int arm64Passed.target,
          nStack] ∧
      Arm64.OffStack arm64Shared (k + 32) (.ptr arm64Passed.slot arm64Passed.off) := by
    refine ⟨0, .int 0, rfl, ?_, ?_⟩
    · simp [Cells.Holds, arm64Passed, passed, arm64Shared, sharedMem, callMem, arm64Call]
    · intro j _
      simp [arm64Passed, passed]
  exact ⟨⟨hinvoke, rfl, rfl⟩, ⟨hinvoke, rfl, rfl⟩, ⟨hdirect, hstored, rfl, rfl⟩⟩

theorem trampolines_agree_iff_at_shared :
    ((∀ g, X64.Agree (x64Build.withTlsGetAddr g) x64Clone x64Shared x64Shared x64Shared) ↔
      ¬(x64Build.segueCacheGs = true ∧ x64Build.CallsTls)) ∧
    Arm64.arrival (Arm64.lfiTrampolineStruct arm64Build arm64Clone arm64Shared) =
      Arm64.arrival (Arm64.lfiTrampoline arm64Build arm64Clone arm64Shared) ∧
    ¬Arm64.Agree arm64Build arm64Clone arm64Shared arm64Shared arm64Shared :=
  trampolines_agree_iff x64Clone x64Shared_calls arm64Clone arm64Shared_calls

/-- On AArch64 the direct trampoline does not go to 0x1000. -/
theorem arm64_direct_disagrees :
    ¬Arm64.Agree arm64Build arm64Clone arm64Shared arm64Shared arm64Shared :=
  Arm64.direct_disagrees arm64Clone arm64Shared_calls

end LfiRuntime.Trampolines
