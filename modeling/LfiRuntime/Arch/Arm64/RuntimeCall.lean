import LfiRuntime.Arch.Arm64.Places
import LfiRuntime.Arch.Arm64.Callback

/-!
The register file on the way through a runtime call.
-/

namespace LfiRuntime.Arm64

open LfiRuntime.BlockMemory
open LfiRuntime.Layout
open LfiRuntime.Moves

variable {s t u : State} {c : Nat} {k : Int}

/-- The registers that the handler of a runtime call keeps. -/
def handlerSaved : List (Fin 31) := [19, 20, 21, 22, 23, 24, 25, 26, 29]

/-- The address of the sandbox that a register stands for. -/
def boxAddr (base w : W) : W := (w.map fun n => (n.truncate 32).zeroExtend 64).add base

/-- The saves into the context. -/
theorem syscallSave_spec (hctx : s.x 27 = .ptr (.ctx c) 0) :
    let t := exec syscallSave s
    (∀ n ∉ handlerSaved, n ≠ 27 → t.mem (.ptr (.ctx c) (REGS_X n)) = s.x n) ∧
      t.mem (.ptr (.ctx c) REGS_SP) = s.sp ∧
      (∀ i : Fin 32, t.mem (.ptr (.ctx c) (REGS_V i)) = (s.v i).1) ∧
      (∀ i : Fin 32, t.mem (.ptr (.ctx c) (REGS_V i + 8)) = (s.v i).2) ∧
      ∀ o ∈ [REGS_HOST_SP, REGS_BASE], t.mem (.ptr (.ctx c) o) = s.mem (.ptr (.ctx c) o) := by
  refine ⟨?_, ?_, ?_, ?_, ?_⟩
  · intro n hn hbase
    exact val_exec (q := REG_BASE) (p := .cell (REGS_X n)) (c := .place (.x n)) hctx
      (by revert n; decide)
  · exact val_exec (q := REG_BASE) (p := .cell REGS_SP) (c := .place .sp) hctx (by decide)
  · intro i
    exact val_exec (q := REG_BASE) (p := .cell (REGS_V i)) (c := .place (.lo i)) hctx
      (by revert i; decide +kernel)
  · intro i
    exact val_exec (q := REG_BASE) (p := .cell (REGS_V i + 8)) (c := .place (.hi i)) hctx
      (by revert i; decide +kernel)
  · intro o ho
    exact val_exec (q := REG_BASE) (p := .cell o) (c := .place (.cell o)) hctx
      (by revert o; decide)

/-- The loads from the context. -/
theorem syscallLoad_spec (hctx : s.x 0 = .ptr (.ctx c) 0) :
    let t := exec syscallLoad s
    (∀ n ∉ handlerSaved, t.x n = s.mem (.ptr (.ctx c) (REGS_X n))) ∧
      (∀ n ∈ handlerSaved, t.x n = s.x n) ∧ t.sp = s.mem (.ptr (.ctx c) REGS_SP) ∧
      ∀ i : Fin 32,
        t.v i = (s.mem (.ptr (.ctx c) (REGS_V i)), s.mem (.ptr (.ctx c) (REGS_V i + 8))) := by
  refine ⟨?_, ?_, ?_, ?_⟩
  · intro n hn
    exact val_exec (q := .x 0) (p := .x n) (c := .place (.cell (REGS_X n))) hctx
      (by revert n; decide)
  · intro n hn
    exact val_exec (q := .x 0) (p := .x n) (c := .place (.x n)) hctx (by revert n; decide)
  · exact val_exec (q := .x 0) (p := .sp) (c := .place (.cell REGS_SP)) hctx (by decide)
  · intro i
    apply Prod.ext
    · exact val_exec (q := .x 0) (p := .lo i) (c := .place (.cell (REGS_V i))) hctx
        (by revert i; decide +kernel)
    · exact val_exec (q := .x 0) (p := .hi i) (c := .place (.cell (REGS_V i + 8))) hctx
        (by revert i; decide +kernel)

theorem sandboxReturn_spec (s : State) :
    let t := exec sandboxReturn s
    (∀ n, n ≠ 30 → t.x n = s.x n) ∧ t.x 30 = boxAddr (s.x 27) (s.x 30) ∧ t.sp = s.sp ∧
      t.v = s.v ∧ t.flags = .logic (.int 0) ∧ t.fpsr = .int 0 ∧ t.pc = t.x 30 := by
  refine ⟨?_, rfl, rfl, rfl, rfl, rfl, rfl⟩
  intro n hn
  exact x_exec (by simpa [sandboxReturn, Instr.regs] using hn) s

/-- A runtime call from the sandbox of a context, on a host stack that ends
at `k`. The link register holds an address of the sandbox. -/
structure Calling (c : Nat) (k : Int) (s : State) : Prop where
  ctxReg : s.x 25 = .ptr (.ctxBlock c) 0
  sys : s.mem (.ptr (.ctxBlock c) SYS_CTX_OFFSET) = .ptr (.ctx c) 0
  hostSp : s.mem (.ptr (.ctx c) REGS_HOST_SP) = .ptr (.stack s.thread) k
  base : s.mem (.ptr (.ctx c) REGS_BASE) = s.x 27
  link : boxAddr (s.x 27) (s.x 30) = s.x 30

/-- What the handler of a runtime call finds. -/
theorem lfiSyscallEntry_spec (h : Calling c k s) :
    let t := lfiSyscallEntry s
    t.thread = s.thread ∧ t.sp = .ptr (.stack s.thread) (k - 16) ∧
      t.mem (.ptr (.stack s.thread) (k - 16)) = .ptr (.ctx c) 0 ∧
      (∀ n ∈ handlerSaved, t.x n = s.x n) ∧
      (∀ n ∉ handlerSaved, n ≠ 27 → n ≠ 28 → t.mem (.ptr (.ctx c) (REGS_X n)) = s.x n) ∧
      t.mem (.ptr (.ctx c) REGS_ADDR) = s.x 27 ∧ t.mem (.ptr (.ctx c) REGS_SP) = s.sp ∧
      (∀ i : Fin 32, t.mem (.ptr (.ctx c) (REGS_V i)) = (s.v i).1) ∧
      (∀ i : Fin 32, t.mem (.ptr (.ctx c) (REGS_V i + 8)) = (s.v i).2) ∧
      t.mem (.ptr (.ctx c) REGS_BASE) = s.x 27 := by
  let s₁ := exec ([.mov REG_ADDR REG_BASE] ++ getCtx REG_BASE) s
  have hctx₁ : s₁.x 27 = .ptr (.ctx c) 0 := by
    simp [s₁, getCtx, exec1, h.ctxReg, h.sys]
  have hreg₁ : ∀ n, n ≠ 27 → n ≠ 28 → s₁.x n = s.x n := by
    intro n hbase haddr
    exact x_exec (by simp [getCtx, Instr.regs, hbase, haddr]) s
  have haddr₁ : s₁.x 28 = s.x 27 := by
    simp [s₁, getCtx, exec1]
  obtain ⟨hregs₂, hsp₂, hlo₂, hhi₂, hcells₂⟩ := syscallSave_spec hctx₁
  let s₂ := exec syscallSave s₁
  have hctx₂ : s₂.x 27 = .ptr (.ctx c) 0 := (x_exec (by decide) s₁).trans hctx₁
  have hhost₂ : s₂.mem (.ptr (.ctx c) REGS_HOST_SP) = .ptr (.stack s.thread) k :=
    (hcells₂ _ (by decide)).trans h.hostSp
  have hmem : ∀ o, (lfiSyscallEntry s).mem (.ptr (.ctx c) o) = s₂.mem (.ptr (.ctx c) o) := by
    intro o
    change (exec syscallCall s₂).mem _ = _
    simp -implicitDefEqProofs [syscallCall, exec1, hctx₂, hhost₂, Cells.set_apply]
  refine ⟨?_, ?_, ?_, ?_, ?_, ?_, ?_, ?_, ?_, ?_⟩
  · calc (lfiSyscallEntry s).thread = s₂.thread := thread_exec _ s₂
      _ = s₁.thread := thread_exec _ s₁
      _ = s.thread := thread_exec _ s
  · change (exec syscallCall s₂).sp = _
    simp -implicitDefEqProofs [syscallCall, exec1, hctx₂, hhost₂, Int.sub_eq_add_neg]
  · change (exec syscallCall s₂).mem _ = _
    simp -implicitDefEqProofs [syscallCall, exec1, hctx₂, hhost₂, Int.sub_eq_add_neg]
  · intro n hn
    calc (lfiSyscallEntry s).x n = s₂.x n := x_exec (by revert n; decide) s₂
      _ = s₁.x n := x_exec (by revert n; decide) s₁
      _ = s.x n := hreg₁ n (by revert n; decide) (by revert n; decide)
  · intro n hn hbase haddr
    rw [hmem, ← hreg₁ n hbase haddr]
    exact hregs₂ n hn hbase
  · rw [hmem, ← haddr₁]
    exact hregs₂ 28 (by decide) (by decide)
  · rw [hmem]
    exact hsp₂
  · intro i
    rw [hmem]
    exact hlo₂ i
  · intro i
    rw [hmem]
    exact hhi₂ i
  · rw [hmem, hcells₂ REGS_BASE (by decide)]
    exact h.base

/-- The handler of a runtime call has returned. -/
structure Handled (c : Nat) (k : Int) (u : State) : Prop where
  sp : u.sp = .ptr (.stack u.thread) (k - 16)
  ctx : u.mem (.ptr (.stack u.thread) (k - 16)) = .ptr (.ctx c) 0

/-- The sandbox goes on with what is in its context. -/
theorem lfiSyscallEnd_spec (h : Handled c k u) :
    let t := lfiSyscallEnd u
    (∀ n ∉ handlerSaved, n ≠ 30 → t.x n = u.mem (.ptr (.ctx c) (REGS_X n))) ∧
      t.x 30 = boxAddr (u.mem (.ptr (.ctx c) REGS_BASE)) (u.mem (.ptr (.ctx c) (REGS_X 30))) ∧
      (∀ n ∈ handlerSaved, t.x n = u.x n) ∧ t.sp = u.mem (.ptr (.ctx c) REGS_SP) ∧
      (∀ i : Fin 32,
        t.v i = (u.mem (.ptr (.ctx c) (REGS_V i)), u.mem (.ptr (.ctx c) (REGS_V i + 8)))) ∧
      t.flags = .logic (.int 0) ∧ t.fpsr = .int 0 ∧ t.pc = t.x 30 := by
  let s₁ := exec [.ldrPost (.x 0) 16] u
  have hctx₁ : s₁.x 0 = .ptr (.ctx c) 0 := by
    simp [s₁, exec1, h.sp, h.ctx]
  obtain ⟨hregs₂, hkept₂, hsp₂, hv₂⟩ := syscallLoad_spec hctx₁
  let s₂ := exec syscallLoad s₁
  obtain ⟨hreg₃, hlink₃, hsp₃, hv₃, hflags₃, hfpsr₃, hpc₃⟩ := sandboxReturn_spec s₂
  refine ⟨?_, ?_, ?_, ?_, ?_, hflags₃, hfpsr₃, hpc₃⟩
  · intro n hn hlink
    exact (hreg₃ n hlink).trans (hregs₂ n hn)
  · calc _ = boxAddr (s₂.x 27) (s₂.x 30) := hlink₃
      _ = _ := by
          rw [show s₂.x 27 = _ from hregs₂ 27 (by decide),
            show s₂.x 30 = _ from hregs₂ 30 (by decide)]
          rfl
  · intro n hn
    calc _ = s₂.x n := hreg₃ n (by revert n; decide)
      _ = s₁.x n := hkept₂ n hn
      _ = u.x n := x_exec (by revert n; decide) u
  · exact hsp₃.trans hsp₂
  · intro i
    exact (congrFun hv₃ i).trans (hv₂ i)

/-- `lfi_ctx_regs_init`, for a box with its base and return address. -/
def lfiCtxRegsInit (c : Nat) (base retaddr : W) (m : Mem) : Mem :=
  ((((((m.set (.ptr (.ctx c) REGS_BASE) base).set (.ptr (.ctx c) REGS_ADDR) base).set
    (.ptr (.ctx c) REGS_SP) base).set (.ptr (.ctx c) (REGS_X 30)) base).set
    (.ptr (.ctx c) REGS_RETADDR) retaddr).set (.ptr (.ctx c) (REGS_X 25))
    (.ptr (.ctxBlock c) 0))

/-! A whole runtime call. -/

def runtimeCall (handler : HostFn) (s : State) : State :=
  lfiSyscallEnd (handler.run (lfiSyscallEntry s))

/-- From its call in `t` to its return in `u`, a handler changes nothing in the
saved registers of the context but the result. -/
def KeepsRegs (c : Nat) (t u : State) : Prop :=
  ∀ o, REGS_HOST_SP ≤ o → o < CTX_ABORT_CALLBACK → o ≠ REGS_X 0 →
    u.mem (.ptr (.ctx c) o) = t.mem (.ptr (.ctx c) o)

/-- The sandbox goes on in `t` after its runtime call in `s`: the result and the
address register apart, with the register file it had. -/
structure Resumed (s t : State) : Prop where
  pc : t.pc = s.x 30
  x : ∀ n, n ≠ 0 → n ≠ 28 → t.x n = s.x n
  sp : t.sp = s.sp
  v : ∀ i, t.v i = s.v i

theorem handled_of_call (h : Calling c k s) (handler : HostFn) :
    Handled c k (handler.run (lfiSyscallEntry s)) := by
  obtain ⟨hthread, hsp, hframe, -⟩ := lfiSyscallEntry_spec h
  have hret := handler.returns (lfiSyscallEntry s)
  have hthread' := hret.thread.trans hthread
  refine ⟨?_, ?_⟩
  · rw [hret.sp, hsp, hthread']
  · rw [← hthread] at hsp
    rw [hthread', ← hframe, ← hthread]
    exact hret.stack _ hsp _ (le_refl _)

/-- The register file survives, and the address register goes back to the base
of the sandbox. -/
theorem runtimeCall_spec (h : Calling c k s) (handler : HostFn)
    (hkeeps : KeepsRegs c (lfiSyscallEntry s) (handler.run (lfiSyscallEntry s))) :
    Resumed s (runtimeCall handler s) ∧ (runtimeCall handler s).x 28 = s.x 27 := by
  obtain ⟨-, -, -, hkept, hregs, haddr, hsp, hlo, hhi, hbase⟩ := lfiSyscallEntry_spec h
  obtain ⟨hregs', hlink', hkept', hsp', hv', -, -, hpc'⟩ :=
    lfiSyscallEnd_spec (handled_of_call h handler)
  let u := handler.run (lfiSyscallEntry s)
  have hbase' : u.mem (.ptr (.ctx c) REGS_BASE) = s.x 27 := by
    rw [← hbase]
    exact hkeeps _ (by decide) (by decide) (by decide)
  have hrange : ∀ n : Fin 31, n ≠ 0 →
      REGS_HOST_SP ≤ REGS_X n ∧ REGS_X n < CTX_ABORT_CALLBACK ∧ REGS_X n ≠ REGS_X 0 := by
    decide
  have hlink : (runtimeCall handler s).x 30 = s.x 30 := by
    have hcell : u.mem (.ptr (.ctx c) (REGS_X 30)) = s.x 30 := by
      rw [← hregs 30 (by decide) (by decide) (by decide)]
      exact hkeeps _ (by decide) (by decide) (by decide)
    calc _ = boxAddr (u.mem (.ptr (.ctx c) REGS_BASE)) (u.mem (.ptr (.ctx c) (REGS_X 30))) :=
          hlink'
      _ = s.x 30 := by rw [hbase', hcell, h.link]
  have hx : ∀ n, n ≠ 0 → n ≠ 28 → (runtimeCall handler s).x n = s.x n := by
    intro n hres hne
    by_cases hsaved : n ∈ handlerSaved
    · have hcallee : n ∈ calleeSaved := by
        revert n
        decide
      rw [← hkept n hsaved, ← (handler.returns (lfiSyscallEntry s)).saved n hcallee]
      exact hkept' n hsaved
    rcases eq_or_ne n 30 with rfl | h30
    · exact hlink
    rcases eq_or_ne n 27 with rfl | h27
    · exact (hregs' 27 (by decide) (by decide)).trans hbase'
    · obtain ⟨hle, hlt, hcell⟩ := hrange n hres
      rw [← hregs n hsaved h27 hne, ← hkeeps _ hle hlt hcell]
      exact hregs' n hsaved h30
  have hvrange : ∀ i : Fin 32, REGS_HOST_SP ≤ REGS_V i ∧ REGS_V i + 8 < CTX_ABORT_CALLBACK ∧
      REGS_X 0 < REGS_V i := by
    decide
  refine ⟨⟨hpc'.trans hlink, hx, ?_, ?_⟩, ?_⟩
  · rw [← hsp, ← hkeeps REGS_SP (by decide) (by decide) (by decide)]
    exact hsp'
  · intro i
    obtain ⟨hle, hlt, hgt⟩ := hvrange i
    rw [← Prod.mk.eta (p := s.v i), ← hlo i, ← hhi i,
      ← hkeeps (REGS_V i) hle (by omega) (by omega),
      ← hkeeps (REGS_V i + 8) (by omega) hlt (by omega)]
    exact hv' i
  · rw [← haddr, ← hkeeps REGS_ADDR (by decide) (by decide) (by decide)]
    exact hregs' 28 (by decide) (by decide)

end LfiRuntime.Arm64
