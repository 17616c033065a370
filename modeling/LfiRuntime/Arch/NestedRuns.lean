import LfiRuntime.Arch.Arm64.StaleHostSp
import LfiRuntime.Arch.X64.Lawful

/-!
The nested runs of the transition code of both architectures.
-/

namespace LfiRuntime.NestedRuns

open LfiRuntime.Runs
open LfiRuntime.Transitions

variable (bx : X64.Build) (cx : X64.HostFn) (ba : Arm64.Build) (ca : Arm64.HostFn) (c th : Nat)

/-- Every return from an invocation, and every return to the sandbox, restores
what it should, as long as no handler of a runtime call enters the sandbox: one
that does leaves `host_sp` at its own frame. -/
theorem transitions_bracketed :
    WellBracketed (X64.arch bx cx) c th (fun cfg l => Nested cfg l ∧ LeafHandlers cfg l) ∧
      WellBracketed (Arm64.arch ba ca) c th (fun cfg l => Nested cfg l ∧ LeafHandlers cfg l) ∧
      ¬WellBracketed (Arm64.arch ba ca) c th Nested :=
  ⟨wellBracketed (X64.lawful bx cx c th), wellBracketed (Arm64.lawful ba ca c th),
    Arm64.not_wellBracketed ba ca c th⟩

/-- On x86-64 an aborted callback always leaves through the invocation that it
was made from; on AArch64 just the ones that have made no invocation do. -/
theorem aborted_callbacks :
    AbortsRight (X64.arch bx cx) c th Calls ∧
      (∀ s cfg cfg', s.thread = th →
        Reaches (Step (Arm64.arch ba ca) c th) (CleanCalls (Arm64.arch ba ca)) ⟨s, [], false⟩ cfg →
        Step (Arm64.arch ba ca) c th cfg .abort cfg' →
        (AbortedRight (Arm64.arch ba ca) c cfg cfg' ↔ CleanAbort cfg .abort)) ∧
      ¬AbortsRight (Arm64.arch ba ca) c th Calls := by
  refine ⟨abortsRight (X64.lawful bx cx c th) rfl, ?_, Arm64.not_abortsRight ba ca c th⟩
  intro s cfg cfg' hthread hrun hstep
  have hinv := inv_of_cleanCalls (Arm64.lawful ba ca c th) hthread hrun
  exact Arm64.abortedRight_iff hinv hstep

/-- `lfi_ctx_exit` pops the frame of the active `lfi_ctx_run` just where it is
called from a runtime call, or on AArch64 also from a callback that has made no
invocation, of the sandbox code that was started there. -/
theorem ctx_exits :
    ExitsExact (X64.arch bx cx) c th ∧ ExitsExact (Arm64.arch ba ca) c th ∧
      ∃ s cfg, s.thread = th ∧ Reaches (Step (Arm64.arch ba ca) c th)
          (Careful (Arm64.arch ba ca)) ⟨s, [], false⟩ cfg ∧ OnHost cfg.frames ∧
        ¬ExitRight (Arm64.arch ba ca) c th cfg := by
  obtain ⟨cfg, hrun, hfs, hwrong⟩ := Arm64.exists_not_exitRight ba ca c th
  exact ⟨exitsExact (X64.lawful bx cx c th), exitsExact (Arm64.lawful ba ca c th),
    _, cfg, rfl, hrun, hfs, hwrong⟩

end LfiRuntime.NestedRuns
