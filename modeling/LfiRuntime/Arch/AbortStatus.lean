import LfiRuntime.Arch.Arm64.AbortFlags
import LfiRuntime.Arch.X64.AbortFlags

/-!
What `lfi_ctx_abort_cb_status` tells, on both architectures.
-/

namespace LfiRuntime.AbortFlags

/-- The flags are the history of the callbacks: a request is for the callback
that returns next, and the status stays set after the first abort. -/
theorem abort_status (bx : X64.Build) (cx : X64.HostFn) (ba : Arm64.Build) (ca : Arm64.HostFn)
    (c th : Nat) :
    StatusTells (X64.arch bx cx) c th ∧ StatusTells (Arm64.arch ba ca) c th :=
  ⟨statusTells (X64.flags_lawful bx cx c th), statusTells (Arm64.flags_lawful ba ca c th)⟩

end LfiRuntime.AbortFlags
