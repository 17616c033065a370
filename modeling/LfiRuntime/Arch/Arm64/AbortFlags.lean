import LfiRuntime.Arch.AbortFlags
import LfiRuntime.Arch.Arm64.Lawful

/-!
What the AArch64 transition code does to the flags of aborted callbacks.
-/

namespace LfiRuntime.Arm64

open LfiRuntime.AbortFlags (SameFlags)
open LfiRuntime.BlockMemory
open LfiRuntime.Layout

variable {b : Build} {clone : HostFn} {c th : Nat} {s t : State} {e : State} {k : Int} {ws : Bool}

theorem sameFlags_of_cells
    (h : ∀ o ∈ keptCells, t.mem (.ptr (.ctx c) o) = s.mem (.ptr (.ctx c) o)) :
    SameFlags (arch b clone) c s t :=
  ⟨h CTX_ABORT_CALLBACK (by decide), h CTX_ABORT_STATUS (by decide)⟩

/-- `.lfi_ret_internal` stores the results of the function and no more. -/
theorem flags_lfiRetInternal (hctx : s.x 27 = .ptr (.ctx c) 0) {o : Int} (ho : o ∈ keptCells) :
    (exec lfiRetInternal s).mem (.ptr (.ctx c) o) = s.mem (.ptr (.ctx c) o) := by
  -- the stores are over before the registers come back
  rw [← List.take_append_drop 9 lfiRetInternal, exec_append, mem_exec (by decide)]
  exact mem_exec_of_storesOutside (q := REG_BASE) hctx (by decide) (by decide) fun _ => ho

theorem flags_lfiRet (h : Transitions.InBox (arch b clone) c th s) :
    SameFlags (arch b clone) c s (lfiRet s) := by
  obtain ⟨-, hsys, -⟩ := attached_iff.mp h.toAttached
  obtain ⟨hctx, -, hmem⟩ := getCtx_spec (q := 27) h.ctxReg hsys
  apply sameFlags_of_cells
  intro o ho
  exact (flags_lfiRetInternal hctx ho).trans (congrFun hmem _)

theorem flags_lfiCallback (ws : Bool) (h : Transitions.InBox (arch b clone) c th s)
    (hhost : (arch b clone).hostSp c s = Transitions.hostStack th k) :
    SameFlags (arch b clone) c s (lfiCallback ws s) := by
  obtain ⟨-, hsys, -⟩ := attached_iff.mp h.toAttached
  obtain ⟨-, -, -, -, -, -, -, hkeeps⟩ := lfiCallback_spec ws h.ctxReg hsys hhost
  apply sameFlags_of_cells
  intro o ho
  exact hkeeps.cell ho

/-- Whatever frame an aborted callback finds, it has set the flags before. -/
theorem flags_abort (h : Transitions.Returning (arch b clone) c th (.callback ws) e k
      (lfiCallback ws) s) (habort : (arch b clone).Aborted c s) :
    let t := lfiCallbackEnd b ws s
    t.mem (.ptr (.ctx c) CTX_ABORT_CALLBACK) = .int 0#64 ∧
      t.mem (.ptr (.ctx c) CTX_ABORT_STATUS) = .int 1#64 := by
  obtain ⟨-, hctx, -⟩ := returning_regs h
  obtain ⟨hctx₁, hflag, -⟩ := callbackCheck_spec hctx
  let s₁ := exec callbackCheck s
  obtain ⟨hctx₂, hclear, hset, -⟩ := callbackAbort_spec th (j := k) hctx₁
  let s₃ := exec [.mov REG_BASE (.x 0)] (exec callbackAbort s₁)
  have hctx₃ : s₃.x 27 = .ptr (.ctx c) 0 := hctx₂
  have heq : lfiCallbackEnd b ws s = exec lfiRetInternal s₃ := by
    have hone : s₁.x 10 = .int 1 := hflag.trans habort
    exact if_pos hone
  rw [heq]
  exact ⟨(flags_lfiRetInternal hctx₃ (by decide)).trans hclear,
    (flags_lfiRetInternal hctx₃ (by decide)).trans hset⟩

theorem flags_lawful (b : Build) (clone : HostFn) (c th : Nat) :
    AbortFlags.Lawful (arch b clone) c th where
  invoke ws s k h := by
    obtain ⟨-, -, -, hcells⟩ := law_invoke ws h
    exact sameFlags_of_cells fun o ho => hcells o (List.mem_cons_of_mem _ ho)
  ret s h := flags_lfiRet h
  callback ws s k h hhost := flags_lfiCallback ws h hhost
  callbackEnd ws s e k h habort := by
    obtain ⟨-, -, -, -, -, -, hcells⟩ := law_callbackEnd h habort
    exact sameFlags_of_cells hcells
  abort ws s e k h habort := flags_abort h habort

end LfiRuntime.Arm64
