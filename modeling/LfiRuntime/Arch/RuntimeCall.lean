import LfiRuntime.Arch.X64.RuntimeCall
import LfiRuntime.Arch.Arm64.RuntimeCall

/-!
Whether a runtime call leaves the registers of the sandbox as they were.
-/

namespace LfiRuntime.RuntimeCall

open LfiRuntime.BlockMemory
open LfiRuntime.Layout

/-- On x86-64 a call keeps the register file exactly when the upper halves of
the vector registers are zero and MXCSR is what the context holds: the one is
saved and loaded by halves, the other loaded and never saved. On AArch64 it
always does, but for the address register, which is reset. -/
theorem runtimeCall_resumed_iff {b : X64.Build} {c : Nat} {k : Int} {s : X64.State}
    (h : X64.Calling c k s) (handler : X64.HostFn)
    (hkeeps : X64.KeepsRegs b c (X64.lfiSyscallEntry b s)
      (handler.run (X64.lfiSyscallEntry b s)))
    {c' : Nat} {k' : Int} {s' : Arm64.State}
    (h' : Arm64.Calling c' k' s') (handler' : Arm64.HostFn)
    (hkeeps' : Arm64.KeepsRegs c' (Arm64.lfiSyscallEntry s')
      (handler'.run (Arm64.lfiSyscallEntry s'))) :
    (X64.Resumed s (X64.runtimeCall b handler s) ↔
      (∀ i, (s.xmm i).2 = .int 0) ∧ s.mxcsr = s.mem (.ptr (.ctx c) X64.REGS_MXCSR)) ∧
    Arm64.Resumed s' (Arm64.runtimeCall handler' s') ∧
    ((Arm64.runtimeCall handler' s').x 28 = s'.x 28 ↔ s'.x 28 = s'.x 27) := by
  obtain ⟨hres, haddr⟩ := Arm64.runtimeCall_spec h' handler' hkeeps'
  refine ⟨X64.resumed_iff h handler hkeeps, hres, ?_⟩
  rw [haddr]
  exact eq_comm

/-! Calls from a sandbox whose context is as `lfi_ctx_regs_init` left it. -/

def hostStack : W := .ptr (.stack 0) 0

def callMem (ctx : Mem) : Mem :=
  (ctx.set (.ptr (.ctxBlock 0) SYS_CTX_OFFSET) (.ptr (.ctx 0) 0)).set
    (.ptr (.ctx 0) REGS_HOST_SP) hostStack

def x64Build : X64.Build where
  pku := false
  segue := false
  segueCacheGs := false
  storesOnly := false
  gottpoff := 16
  tls := .exec

/-- A call with a value in the upper half of `xmm0` and another in MXCSR. -/
def x64Call (high mxcsr : W) : X64.State where
  reg r := if r = .r15 then .ptr (.ctxBlock 0) 0 else .int 0
  xmm i := (.int 0, if i = 0 then high else .int 0)
  mem := callMem (X64.lfiCtxRegsInit 0 (.int 0x100000000) (.int 0) (.int 0) fun _ => .int 0)
  flags := .logic (.int 0)
  df := false
  fcw := .int 0x37f
  mxcsr := mxcsr
  gsBase := .int 0
  pkru := .int 0
  pc := .int 0
  thread := 0

/-- A handler that does nothing. -/
def x64Handler : X64.HostFn where
  run s := s.drop.setPc s.top
  returns s := by
    constructor <;> simp +contextual [X64.State.drop, X64.State.top, X64.calleeSaved]

theorem x64Call_calling (high mxcsr : W) : X64.Calling 0 0 (x64Call high mxcsr) :=
  ⟨rfl, rfl, rfl⟩

theorem x64Handler_keeps (s : X64.State) :
    X64.KeepsRegs x64Build 0 s (x64Handler.run s) :=
  ⟨fun _ _ _ _ => rfl, fun h => absurd h (by decide)⟩

def arm64Call : Arm64.State where
  x n := if n = 25 then .ptr (.ctxBlock 0) 0 else
    if n ∈ [27, 28, 30] then .int 0x100000000 else .int 0
  sp := .int 0x100000000
  v _ := (.int 0, .int 1)
  mem := callMem (Arm64.lfiCtxRegsInit 0 (.int 0x100000000) (.int 0) fun _ => .int 0)
  flags := .logic (.int 0)
  fpsr := .int 0
  pc := .int 0
  thread := 0

def arm64Handler : Arm64.HostFn where
  run s := s.setPc (s.x 30)
  returns s := by
    constructor <;> simp

theorem arm64Call_calling : Arm64.Calling 0 0 arm64Call :=
  ⟨rfl, rfl, rfl, rfl, rfl⟩

theorem runtimeCall_resumed_at_call :
    (X64.Resumed (x64Call (.int 0) (.int 0x1f80))
        (X64.runtimeCall x64Build x64Handler (x64Call (.int 0) (.int 0x1f80))) ↔
      (∀ i, ((x64Call (.int 0) (.int 0x1f80)).xmm i).2 = .int 0) ∧
        (x64Call (.int 0) (.int 0x1f80)).mxcsr =
          (x64Call (.int 0) (.int 0x1f80)).mem (.ptr (.ctx 0) X64.REGS_MXCSR)) ∧
    Arm64.Resumed arm64Call (Arm64.runtimeCall arm64Handler arm64Call) ∧
    ((Arm64.runtimeCall arm64Handler arm64Call).x 28 = arm64Call.x 28 ↔
      arm64Call.x 28 = arm64Call.x 27) :=
  runtimeCall_resumed_iff (x64Call_calling _ _) x64Handler (x64Handler_keeps _)
    arm64Call_calling arm64Handler fun _ _ _ _ => rfl

/-- A sandbox that keeps 1 in the upper half of `xmm0` over a runtime call, and
one that has set another rounding mode. -/
theorem runtimeCall_not_resumed :
    ¬X64.Resumed (x64Call (.int 1) (.int 0x1f80))
      (X64.runtimeCall x64Build x64Handler (x64Call (.int 1) (.int 0x1f80))) ∧
    ¬X64.Resumed (x64Call (.int 0) (.int 0x3f80))
      (X64.runtimeCall x64Build x64Handler (x64Call (.int 0) (.int 0x3f80))) := by
  constructor
  · intro h
    have hhigh := ((X64.resumed_iff (x64Call_calling _ _) x64Handler (x64Handler_keeps _)).mp h).1 0
    simp [x64Call] at hhigh
  · intro h
    have hctl := ((X64.resumed_iff (x64Call_calling _ _) x64Handler (x64Handler_keeps _)).mp h).2
    revert hctl
    decide

end LfiRuntime.RuntimeCall
