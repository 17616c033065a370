import LfiRuntime.Arch.AbortFlags
import LfiRuntime.Arch.X64.Lawful

/-!
What the x86-64 transition code does to the flags of aborted callbacks.
-/

namespace LfiRuntime.X64

open LfiRuntime.AbortFlags (SameFlags)
open LfiRuntime.BlockMemory
open LfiRuntime.Layout

variable {b : Build} {clone : HostFn} {c th : Nat} {s t : State} {e : State} {k : Int} {ws : Bool}

def flagCells : List Int := [CTX_ABORT_CALLBACK, CTX_ABORT_STATUS]

theorem sameFlags_of_cells
    (h : ∀ o ∈ flagCells, t.mem (.ptr (.ctx c) o) = s.mem (.ptr (.ctx c) o)) :
    SameFlags (arch b clone) c s t :=
  ⟨h CTX_ABORT_CALLBACK (by decide), h CTX_ABORT_STATUS (by decide)⟩

theorem flagCells_ne {o : Int} (ho : o ∈ flagCells) : o ≠ REGS_HOST_SP ∧ o ≠ REGS_RSP := by
  simp only [flagCells, List.mem_cons, List.not_mem_nil, or_false] at ho
  rcases ho with rfl | rfl <;> decide

theorem flags_lfiRetEnd (hctx : s.reg .rdi = .ptr (.ctx c) 0) {o : Int} (ho : o ∈ flagCells) :
    (exec lfiRetEnd s).mem (.ptr (.ctx c) o) = s.mem (.ptr (.ctx c) o) :=
  mem_exec_of_storesOutside hctx (by decide) (by decide) fun _ => ho

theorem flags_lfiRet (h : Transitions.InBox (arch b clone) c th s) :
    SameFlags (arch b clone) c s (lfiRet b s) := by
  obtain ⟨-, hsys, -⟩ := attached_iff.mp h.toAttached
  let s₁ := if b.pku then
      exec [.mov .rdi .rax, .mov .rsi .rdx]
        (exec pkuAllAccess (exec [.mov .rax .rdi, .mov .rdx .rsi] s))
    else s
  have hmem₁ : s₁.mem = s.mem := by
    unfold s₁
    cases b.pku <;> rfl
  have hr15 : s₁.reg .r15 = .ptr (.ctxBlock c) 0 := by
    rw [← show s.reg .r15 = _ from h.ctxReg]
    unfold s₁
    cases b.pku with
    | false => rfl
    | true => simp [pkuAllAccess, exec1]
  have hctx : (exec (getCtx .rdi) s₁).reg .rdi = .ptr (.ctx c) 0 := by
    simp [getCtx, exec1, State.ea, hr15, hmem₁, hsys]
  apply sameFlags_of_cells
  intro o ho
  exact (flags_lfiRetEnd hctx ho).trans (congrFun hmem₁ _)

theorem flags_callbackSwitch (hreg : s.reg .r15 = .ptr (.ctxBlock c) 0)
    (hsys : s.mem (.ptr (.ctxBlock c) SYS_CTX_OFFSET) = .ptr (.ctx c) 0)
    (hhost : s.mem (.ptr (.ctx c) REGS_HOST_SP) = .ptr (.stack th) k) {o : Int}
    (ho : o ∈ flagCells) :
    (exec callbackSwitch s).mem (.ptr (.ctx c) o) = s.mem (.ptr (.ctx c) o) := by
  have hne := flagCells_ne ho
  simp only [REGS_HOST_SP, REGS_RSP] at hne hhost
  simp -implicitDefEqProofs [callbackSwitch, exec1, State.push, State.ea, hreg, hsys, hhost, hne,
    REGS_HOST_SP, REGS_RSP, Cells.set_apply]

theorem flags_lfiCallback (ws : Bool) (h : Transitions.InBox (arch b clone) c th s)
    (hhost : (arch b clone).hostSp c s = Transitions.hostStack th k) :
    SameFlags (arch b clone) c s (lfiCallback b ws s) := by
  obtain ⟨-, hsys, -⟩ := attached_iff.mp h.toAttached
  obtain ⟨n, hsp⟩ := h.boxSp
  obtain ⟨hreg₁, -, hmem₁⟩ := callbackAccess_spec (b := b) hsp
  let s₁ := callbackAccess b s
  have hr15 : s₁.reg .r15 = .ptr (.ctxBlock c) 0 := (hreg₁ _ (by decide)).trans h.ctxReg
  have hsys₁ : s₁.mem (.ptr (.ctxBlock c) SYS_CTX_OFFSET) = .ptr (.ctx c) 0 :=
    (hmem₁ _ _).trans hsys
  have hhost₁ : s₁.mem (.ptr (.ctx c) REGS_HOST_SP) = .ptr (.stack th) k :=
    (hmem₁ _ _).trans hhost
  obtain ⟨hrsp₂, hctx₂, -⟩ := callbackSwitch_spec hr15 hsys₁ hhost₁
  let s₂ := exec callbackSwitch s₁
  let s₃ := if ws then exec saveStructArgs s₂ else s₂
  have hstruct : s₃.reg .rsp = s₂.reg .rsp ∧
      ∀ o ∈ flagCells, s₃.mem (.ptr (.ctx c) o) = s₂.mem (.ptr (.ctx c) o) := by
    unfold s₃
    cases ws with
    | false => exact ⟨rfl, fun _ _ => rfl⟩
    | true =>
        exact ⟨reg_exec (by decide) s₂,
          fun o ho => mem_exec_of_storesOutside hctx₂ (by decide) (by decide) fun _ => ho⟩
  obtain ⟨-, -, -, hmem₄, -⟩ := callbackCall_spec (c := c) (hstruct.1.trans hrsp₂)
  apply sameFlags_of_cells
  intro o ho
  calc (lfiCallback b ws s).mem (.ptr (.ctx c) o) = s₃.mem (.ptr (.ctx c) o) :=
        hmem₄ _ _ (by simp)
    _ = s₂.mem (.ptr (.ctx c) o) := hstruct.2 o ho
    _ = s₁.mem (.ptr (.ctx c) o) := flags_callbackSwitch hr15 hsys₁ hhost₁ ho
    _ = s.mem (.ptr (.ctx c) o) := hmem₁ _ _

theorem flags_callbackReturn (hctx : s.reg .r11 = .ptr (.ctx c) 0) {o : Int}
    (ho : o ∈ flagCells) :
    (exec callbackReturn s).mem (.ptr (.ctx c) o) = s.mem (.ptr (.ctx c) o) := by
  have hne := flagCells_ne ho
  simp only [REGS_HOST_SP, REGS_RSP] at hne
  simp -implicitDefEqProofs [callbackReturn, exec1, State.drop, State.top, State.ea, hctx, hne,
    REGS_HOST_SP, REGS_RSP, Cells.set_apply]

theorem flags_lfiCallbackEnd (h : Transitions.Returning (arch b clone) c th (.callback ws) e k
      (lfiCallback b ws) s) (habort : ¬(arch b clone).Aborted c s) :
    SameFlags (arch b clone) c s (lfiCallbackEnd b ws s) := by
  have hret := callbackReturned h
  obtain ⟨-, hctx₁, hzf, hmem₁, -⟩ := callbackCheck_spec hret.rsp hret.ctx
  let s₁ := exec [.pop .r11, .cmpMemImm 1 CTX_ABORT_CALLBACK .r11] s
  have hne : s.mem (.ptr (.ctx c) CTX_ABORT_CALLBACK) ≠ .int 1#64 := habort
  have hzf' : ¬s₁.flags.zf = true := by
    rw [hzf, decide_eq_false hne]
    exact Bool.false_ne_true
  obtain ⟨hreg₂, -, hmem₂⟩ := segue_spec (b := b) .r10 hctx₁ (by
    intro hsegue hcache
    rw [hmem₁]
    exact hret.cache hsegue hcache)
  let s₂ := if b.segue then segGsSet b .r11 .r10 s₁ else s₁
  let s₃ := exec callbackReturn s₂
  obtain ⟨-, -, hmem₄, -⟩ := callbackTail_spec (b := b) ws s₃
  have heq : lfiCallbackEnd b ws s = callbackTail b ws s₃ := if_neg hzf'
  rw [heq]
  apply sameFlags_of_cells
  intro o ho
  calc (callbackTail b ws s₃).mem (.ptr (.ctx c) o) = s₃.mem (.ptr (.ctx c) o) := by rw [hmem₄]
    _ = s₂.mem (.ptr (.ctx c) o) :=
        flags_callbackReturn ((hreg₂ _ (by decide)).trans hctx₁) ho
    _ = s₁.mem (.ptr (.ctx c) o) := hmem₂ _ _ (by simp)
    _ = s.mem (.ptr (.ctx c) o) := congrFun hmem₁ _

theorem flags_callbackAbort (hctx : s.reg .r11 = .ptr (.ctx c) 0)
    (hsp : s.reg .rsp = .ptr (.stack th) k) :
    let t := exec callbackAbort s
    t.mem (.ptr (.ctx c) CTX_ABORT_CALLBACK) = .int 0#64 ∧
      t.mem (.ptr (.ctx c) CTX_ABORT_STATUS) = .int 1#64 := by
  constructor <;>
    simp -implicitDefEqProofs [callbackAbort, exec1, State.push, State.ea, hctx, hsp,
      CTX_ABORT_CALLBACK, CTX_ABORT_STATUS, REGS_HOST_SP, Cells.set_apply]

theorem flags_abort (h : Transitions.Returning (arch b clone) c th (.callback ws) e k
      (lfiCallback b ws) s) (habort : (arch b clone).Aborted c s) :
    let t := lfiCallbackEnd b ws s
    t.mem (.ptr (.ctx c) CTX_ABORT_CALLBACK) = .int 0#64 ∧
      t.mem (.ptr (.ctx c) CTX_ABORT_STATUS) = .int 1#64 := by
  have hret := callbackReturned h
  obtain ⟨hrsp₁, hctx₁, hzf, -⟩ := callbackCheck_spec hret.rsp hret.ctx
  let s₁ := exec [.pop .r11, .cmpMemImm 1 CTX_ABORT_CALLBACK .r11] s
  have hone : s.mem (.ptr (.ctx c) CTX_ABORT_CALLBACK) = .int 1#64 := habort
  have hzf' : s₁.flags.zf = true := by
    rw [hzf]
    exact decide_eq_true hone
  obtain ⟨hclear, hset⟩ := flags_callbackAbort hctx₁ hrsp₁
  let s₂ := exec callbackAbort s₁
  have hctx₂ : s₂.reg .rdi = .ptr (.ctx c) 0 := by
    rw [← hctx₁]
    simp [s₂, callbackAbort, exec1, State.push, s₁]
  have heq : lfiCallbackEnd b ws s = exec lfiRetEnd s₂ := if_pos hzf'
  rw [heq]
  exact ⟨(flags_lfiRetEnd hctx₂ (by decide)).trans hclear,
    (flags_lfiRetEnd hctx₂ (by decide)).trans hset⟩

theorem flags_lawful (b : Build) (clone : HostFn) (c th : Nat) :
    AbortFlags.Lawful (arch b clone) c th where
  invoke ws s k h := by
    obtain ⟨-, -, -, -, hcells⟩ := law_invoke ws h
    exact sameFlags_of_cells hcells
  ret s h := flags_lfiRet h
  callback ws s k h hhost := flags_lfiCallback ws h hhost
  callbackEnd ws s e k h habort := flags_lfiCallbackEnd h habort
  abort ws s e k h habort := flags_abort h habort

end LfiRuntime.X64
