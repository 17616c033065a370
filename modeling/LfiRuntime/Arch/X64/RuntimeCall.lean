import LfiRuntime.Arch.X64.Places
import LfiRuntime.Arch.X64.Leave

/-!
The register file on the way through a runtime call.
-/

namespace LfiRuntime.X64

open LfiRuntime.BlockMemory
open LfiRuntime.Layout
open LfiRuntime.Moves

instance : Fintype Reg where
  elems := {.rax, .rcx, .rdx, .rbx, .rsp, .rbp, .rsi, .rdi,
    .r8, .r9, .r10, .r11, .r12, .r13, .r14, .r15}
  complete r := by cases r <;> decide

variable {b : Build} {s t u : State} {c th : Nat} {k : Int}

/-- The registers that a runtime call keeps in the context, besides the result,
with their places there. -/
def syscallSaved : List (Reg × Int) :=
  [(.rsp, REGS_RSP), (.rdx, REGS_RDX), (.rbx, REGS_RBX), (.rbp, REGS_RBP), (.rsi, REGS_RSI),
    (.rdi, REGS_RDI), (.r8, REGS_R8), (.r9, REGS_R9), (.r10, REGS_R10), (.r11, REGS_R11)]

/-- Those that the handler keeps. -/
def handlerSaved : List Reg := [.r12, .r13, .r14, .r15]

theorem syscallSaved_or (r : Reg) (hrax : r ≠ .rax) (hrcx : r ≠ .rcx) :
    (∃ o, (r, o) ∈ syscallSaved) ∨ r ∈ handlerSaved := by
  cases r <;> simp [syscallSaved, handlerSaved] at hrax hrcx ⊢

/-! The saves. -/

theorem syscallAccess_regs (hreg : s.reg .r15 = .ptr (.ctxBlock c) 0) :
    (∀ r, r ≠ .rcx → (syscallAccess b s).reg r = s.reg r) ∧
      (syscallAccess b s).xmm = s.xmm ∧ (syscallAccess b s).fcw = s.fcw := by
  unfold syscallAccess
  cases b.pku with
  | false => exact ⟨fun _ _ => rfl, rfl, rfl⟩
  | true =>
      refine ⟨?_, rfl, rfl⟩
      intro r hr
      simp only [if_true, ← exec_append]
      -- both scratch registers come back from the `ctxreg` array
      exact val_exec (p := .reg r) (c := .place (.reg r)) hreg (by revert r; decide)

/-- The saves into the context. -/
theorem syscallSave_spec (hctx : s.reg .rcx = .ptr (.ctx c) 0) :
    let t := exec (syscallSave ++ syscallSaveXmms) s
    (∀ p ∈ syscallSaved, t.mem (.ptr (.ctx c) p.2) = s.reg p.1) ∧
      (∀ i : Fin 16, t.mem (.ptr (.ctx c) (REGS_XMM i)) = (s.xmm i).1) ∧
      t.mem (.ptr (.ctx c) REGS_FCW) = s.fcw ∧
      ∀ o ∈ [REGS_HOST_SP, REGS_PKEY, REGS_MXCSR, CTX_GS_CACHE],
        t.mem (.ptr (.ctx c) o) = s.mem (.ptr (.ctx c) o) := by
  refine ⟨?_, ?_, ?_, ?_⟩
  · intro p hp
    exact val_exec (p := .cell p.2) (c := .place (.reg p.1)) hctx (by revert p; decide)
  · intro i
    exact val_exec (p := .cell (REGS_XMM i)) (c := .place (.lo i)) hctx (by revert i; decide)
  · exact val_exec (p := .cell REGS_FCW) (c := .place .fcw) hctx (by decide)
  · intro o ho
    exact val_exec (p := .cell o) (c := .place (.cell o)) hctx (by revert o; decide)

/-- A runtime call from the sandbox of a context, on a host stack that ends
at `k`. -/
structure Calling (c : Nat) (k : Int) (s : State) : Prop where
  ctxReg : s.reg .r15 = .ptr (.ctxBlock c) 0
  sys : s.mem (.ptr (.ctxBlock c) SYS_CTX_OFFSET) = .ptr (.ctx c) 0
  hostSp : s.mem (.ptr (.ctx c) REGS_HOST_SP) = .ptr (.stack s.thread) k

/-- What the handler of a runtime call finds. -/
theorem lfiSyscallEntry_spec (h : Calling c k s) :
    let t := lfiSyscallEntry b s
    t.thread = s.thread ∧ t.reg .rsp = .ptr (.stack s.thread) (k - 16) ∧
      t.mem (.ptr (.stack s.thread) (k - 8)) = .ptr (.ctx c) 0 ∧
      (∀ r ∈ handlerSaved, t.reg r = s.reg r) ∧
      (∀ p ∈ syscallSaved, t.mem (.ptr (.ctx c) p.2) = s.reg p.1) ∧
      (∀ i : Fin 16, t.mem (.ptr (.ctx c) (REGS_XMM i)) = (s.xmm i).1) ∧
      t.mem (.ptr (.ctx c) REGS_FCW) = s.fcw ∧
      (∀ o ∈ [REGS_HOST_SP, REGS_PKEY, REGS_MXCSR, CTX_GS_CACHE],
        t.mem (.ptr (.ctx c) o) = s.mem (.ptr (.ctx c) o)) ∧
      t.mem (.ptr (.stack s.thread) (k - 16)) = .ptr (.after .lfiSyscallHandler) 0 ∧
      Preserves c s.thread k s t := by
  obtain ⟨-, hthread₁, hmem₁⟩ := syscallAccess_spec (b := b) h.ctxReg
  obtain ⟨hreg₁, hxmm₁, hfcw₁⟩ := syscallAccess_regs (b := b) h.ctxReg
  let s₁ := syscallAccess b s
  let s₂ := exec (getCtx .rcx) s₁
  have hreg₂ : ∀ r, r ≠ .rcx → s₂.reg r = s.reg r := by
    intro r hr
    rw [← hreg₁ r hr]
    exact reg_exec (by simpa [getCtx, Instr.regs] using hr) s₁
  have hmem₂ : ∀ o, s₂.mem (.ptr (.ctx c) o) = s.mem (.ptr (.ctx c) o) :=
    fun o => hmem₁ _ o (by simp)
  have hctx₂ : s₂.reg .rcx = .ptr (.ctx c) 0 := by
    have hr15 : s₁.reg .r15 = .ptr (.ctxBlock c) 0 := (hreg₁ _ (by decide)).trans h.ctxReg
    have hcell := hmem₁ (.ctxBlock c) SYS_CTX_OFFSET fun _ => by decide
    simp only [s₂, getCtx, exec_cons, exec_nil, exec1, State.ea, hr15, State.reg_setReg]
    exact hcell.trans h.sys
  obtain ⟨hregs₃, hxmms₃, hfcw₃, hcells₃⟩ := syscallSave_spec hctx₂
  let s₃ := exec (syscallSave ++ syscallSaveXmms) s₂
  have hctx₃ : s₃.reg .rcx = .ptr (.ctx c) 0 := (reg_exec (by decide) s₂).trans hctx₂
  have hhost₃ : s₃.mem (.ptr (.ctx c) REGS_HOST_SP) = .ptr (.stack s.thread) k :=
    (hcells₃ _ (by decide)).trans ((hmem₂ _).trans h.hostSp)
  obtain ⟨hrsp₄, hframe₄, hmem₄, hpres₄⟩ := syscallCall_spec (c := c) hctx₃ hhost₃
  let s₄ := exec syscallCall s₃
  have hentry : lfiSyscallEntry b s = s₄ := by
    simp only [s₄, s₃, exec_append]
    rfl
  rw [hentry]
  have hcells : ∀ o, s₄.mem (.ptr (.ctx c) o) = s₃.mem (.ptr (.ctx c) o) :=
    fun o => hmem₄ _ o (by simp)
  refine ⟨?_, hrsp₄, ?_, ?_, ?_, ?_, ?_, ?_, hframe₄.1, ?_⟩
  · calc s₄.thread = s₃.thread := thread_exec _ s₃
      _ = s₂.thread := thread_exec _ s₂
      _ = s₁.thread := thread_exec _ s₁
      _ = s.thread := hthread₁
  · have hcell := hframe₄.2.1
    rwa [Word.offset_ptr, show k - 16 + 8 = k - 8 by omega] at hcell
  · intro r hr
    calc s₄.reg r = s₃.reg r := reg_exec (by revert r; decide) s₃
      _ = s₂.reg r := reg_exec (by revert r; decide) s₂
      _ = s.reg r := hreg₂ r (by revert r; decide)
  · intro p hp
    calc _ = s₃.mem (.ptr (.ctx c) p.2) := hcells p.2
      _ = s₂.reg p.1 := hregs₃ p hp
      _ = s.reg p.1 := hreg₂ p.1 (by revert p; decide)
  · intro i
    calc _ = s₃.mem (.ptr (.ctx c) (REGS_XMM i)) := hcells _
      _ = (s₁.xmm i).1 := hxmms₃ i
      _ = (s.xmm i).1 := by rw [show s₁.xmm = s.xmm from hxmm₁]
  · calc _ = s₃.mem (.ptr (.ctx c) REGS_FCW) := hcells _
      _ = s₁.fcw := hfcw₃
      _ = s.fcw := hfcw₁
  · intro o ho
    rw [hcells, hcells₃ o ho, hmem₂]
  · have hpres₂ : Preserves c s.thread k s s₂ := by
      refine ⟨(thread_exec _ s₁).trans hthread₁, fun d i ha => hmem₁ d i fun hd => ?_⟩
      by_contra hle
      refine ha ⟨?_, ?_, fun _ => ?_⟩
      · simp [hd]
      · simp [hd]
      · rintro rfl
        exact hle (by decide)
    exact hpres₂.trans ((preserves_saves hctx₂ (by decide) (by decide)).trans hpres₄)

/-! The way back. -/

theorem pkuBoxAccess_fp (b : Build) (s : State) :
    (pkuBoxAccess b s).fcw = s.fcw ∧ (pkuBoxAccess b s).mxcsr = s.mxcsr := by
  unfold pkuBoxAccess
  cases b.storesOnly <;> exact ⟨rfl, rfl⟩

/-- The switch of the access rights keeps every register but the clobbered
one. -/
theorem syscallPku_spec (hreg : s.reg .r15 = .ptr (.ctxBlock c) 0) :
    let t := syscallPku b s
    (∀ r, r ≠ .rcx → t.reg r = s.reg r) ∧ t.xmm = s.xmm ∧ t.fcw = s.fcw ∧
      t.mxcsr = s.mxcsr := by
  unfold syscallPku
  cases b.pku with
  | false => exact ⟨fun _ _ => rfl, rfl, rfl, rfl⟩
  | true =>
      simp only [if_true]
      let s₁ := exec [.store .rax CTXREG_SCRATCH0_OFFSET .r15,
        .store .rdx CTXREG_SCRATCH1_OFFSET .r15, .load REGS_PKEY .rcx .rcx] s
      obtain ⟨hreg₂, hxmm₂, hmem₂, -, -⟩ := pkuBoxAccess_spec b s₁
      obtain ⟨hfcw₂, hmxcsr₂⟩ := pkuBoxAccess_fp b s₁
      have hr15 : (pkuBoxAccess b s₁).reg .r15 = .ptr (.ctxBlock c) 0 := by
        rw [hreg₂ _ (by decide) (by decide) (by decide), ← hreg]
        exact reg_exec (by decide) s
      have hcells : s₁.mem (.ptr (.ctxBlock c) CTXREG_SCRATCH0_OFFSET) = s.reg .rax ∧
          s₁.mem (.ptr (.ctxBlock c) CTXREG_SCRATCH1_OFFSET) = s.reg .rdx := by
        constructor <;>
          simp -implicitDefEqProofs [s₁, exec1, State.ea, hreg, Cells.set_apply,
            CTXREG_SCRATCH0_OFFSET, CTXREG_SCRATCH1_OFFSET]
      refine ⟨?_, hxmm₂, hfcw₂, hmxcsr₂⟩
      intro r hr
      by_cases hrax : r = .rax
      · rw [hrax, ← hcells.1, ← hmem₂]
        exact val_exec (p := .reg .rax) (c := .place (.cell CTXREG_SCRATCH0_OFFSET)) hr15
          (by decide)
      by_cases hrdx : r = .rdx
      · rw [hrdx, ← hcells.2, ← hmem₂]
        exact val_exec (p := .reg .rdx) (c := .place (.cell CTXREG_SCRATCH1_OFFSET)) hr15
          (by decide)
      rw [reg_exec (by simp [Instr.regs, hrax, hrdx]), hreg₂ r hrax hr hrdx]
      exact reg_exec (by simp [Instr.regs, hr]) s

theorem syscallPku_mem (hreg : s.reg .r15 = .ptr (.ctxBlock c) 0) :
    (syscallPku b s).thread = s.thread ∧ ∀ d i, (d = .ctxBlock c → i < 0) →
      (syscallPku b s).mem (.ptr d i) = s.mem (.ptr d i) := by
  unfold syscallPku
  cases b.pku with
  | false => exact ⟨rfl, fun _ _ _ => rfl⟩
  | true =>
      simp only [if_true]
      let s₁ := exec [.store .rax CTXREG_SCRATCH0_OFFSET .r15,
        .store .rdx CTXREG_SCRATCH1_OFFSET .r15, .load REGS_PKEY .rcx .rcx] s
      obtain ⟨-, -, hmem₂, hthread₂, -⟩ := pkuBoxAccess_spec b s₁
      refine ⟨hthread₂, fun d i hd => ?_⟩
      have hne : ∀ o, 0 ≤ o → Word.ptr d i ≠ .ptr (.ctxBlock c) o := by
        rintro o ho heq
        obtain ⟨rfl, rfl⟩ := Word.ptr.inj heq
        exact absurd (hd rfl) (not_lt.mpr ho)
      rw [mem_exec (by decide), hmem₂]
      simp [s₁, exec1, State.ea, hreg, Cells.set_apply, hne CTXREG_SCRATCH0_OFFSET (by decide),
        hne CTXREG_SCRATCH1_OFFSET (by decide)]

/-- The loads from the context. -/
theorem syscallLoad_spec (hctx : s.reg .rcx = .ptr (.ctx c) 0) :
    let t := exec (syscallLoad ++ syscallLoadXmms) s
    (∀ p ∈ (.rax, REGS_RAX) :: syscallSaved, t.reg p.1 = s.mem (.ptr (.ctx c) p.2)) ∧
      (∀ r ∈ handlerSaved, t.reg r = s.reg r) ∧
      (∀ i : Fin 16, t.xmm i = (s.mem (.ptr (.ctx c) (REGS_XMM i)), .int 0)) ∧
      t.fcw = s.mem (.ptr (.ctx c) REGS_FCW) ∧ t.mxcsr = s.mem (.ptr (.ctx c) REGS_MXCSR) := by
  refine ⟨?_, ?_, ?_, ?_, ?_⟩
  · intro p hp
    exact val_exec (p := .reg p.1) (c := .place (.cell p.2)) hctx (by revert p; decide)
  · intro r hr
    exact reg_exec (by revert r; decide) s
  · intro i
    apply Prod.ext
    · exact val_exec (p := .lo i) (c := .place (.cell (REGS_XMM i))) hctx (by revert i; decide)
    · exact val_exec (p := .hi i) (c := .const (.int 0)) hctx (by revert i; decide)
  · exact val_exec (p := .fcw) (c := .place (.cell REGS_FCW)) hctx (by decide)
  · exact val_exec (p := .mxcsr) (c := .place (.cell REGS_MXCSR)) hctx (by decide)

/-- The handler of a runtime call has returned. -/
structure Handled (b : Build) (c : Nat) (k : Int) (u : State) : Prop where
  rsp : u.reg .rsp = .ptr (.stack u.thread) (k - 8)
  ctx : u.mem (.ptr (.stack u.thread) (k - 8)) = .ptr (.ctx c) 0
  ctxReg : u.reg .r15 = .ptr (.ctxBlock c) 0
  cache : b.segue = true → b.segueCacheGs = true →
    ∃ x i, u.mem (.ptr (.ctx c) CTX_GS_CACHE) = .ptr (.tls x) i

/-- The sandbox goes on with what is in its context. -/
theorem lfiSyscallEnd_spec (h : Handled b c k u) :
    let t := lfiSyscallEnd b u
    t.reg .rcx = .int 0 ∧
      (∀ p ∈ (.rax, REGS_RAX) :: syscallSaved, t.reg p.1 = u.mem (.ptr (.ctx c) p.2)) ∧
      (∀ r ∈ handlerSaved, t.reg r = u.reg r) ∧
      (∀ i : Fin 16, t.xmm i = (u.mem (.ptr (.ctx c) (REGS_XMM i)), .int 0)) ∧
      t.fcw = u.mem (.ptr (.ctx c) REGS_FCW) ∧ t.mxcsr = u.mem (.ptr (.ctx c) REGS_MXCSR) ∧
      t.pc = t.reg .r11 ∧ t.thread = u.thread ∧
      ∀ d i, (∀ x, d ≠ .tls x) → (d = .ctxBlock c → i < 0) →
        t.mem (.ptr d i) = u.mem (.ptr d i) := by
  let s₁ := exec [.pop .rcx] u
  have hctx₁ : s₁.reg .rcx = .ptr (.ctx c) 0 := by
    simp [s₁, exec1, State.drop, State.top, h.rsp, h.ctx]
  have hreg₁ : ∀ r ∈ handlerSaved, s₁.reg r = u.reg r := by
    intro r hr
    exact reg_exec (by revert r; decide) u
  obtain ⟨hreg₂, hthread₂, hmem₂⟩ := segue_spec (b := b) (s := s₁) .rax hctx₁ h.cache
  let s₂ := if b.segue then segGsSet b .rcx .rax s₁ else s₁
  have hcells₂ : ∀ o, s₂.mem (.ptr (.ctx c) o) = u.mem (.ptr (.ctx c) o) :=
    fun o => hmem₂ _ o (by simp)
  obtain ⟨hregs₃, hkept₃, hxmms₃, hfcw₃, hmxcsr₃⟩ :=
    syscallLoad_spec ((hreg₂ .rcx (by decide)).trans hctx₁)
  let s₃ := exec (syscallLoad ++ syscallLoadXmms) s₂
  have hkept : ∀ r ∈ handlerSaved, s₃.reg r = u.reg r := by
    intro r hr
    rw [hkept₃ r hr, hreg₂ r (by revert r; decide), hreg₁ r hr]
  obtain ⟨hreg₄, hxmm₄, hfcw₄, hmxcsr₄⟩ := syscallPku_spec (b := b)
    ((hkept .r15 (by decide)).trans h.ctxReg)
  obtain ⟨hthread₄, hmem₄⟩ := syscallPku_mem (b := b)
    ((hkept .r15 (by decide)).trans h.ctxReg)
  let s₄ := syscallPku b s₃
  have hend : lfiSyscallEnd b u = exec [.movImm 0 .rcx, .jmp .r11] s₄ := by
    simp only [s₄, s₃, exec_append]
    rfl
  have hreg : ∀ r, r ≠ .rcx → (lfiSyscallEnd b u).reg r = s₃.reg r := by
    intro r hr
    rw [hend, ← hreg₄ r hr]
    exact reg_exec (by simp [Instr.regs, hr]) s₄
  refine ⟨?_, ?_, ?_, ?_, ?_, ?_, ?_, ?_, fun d i htls hd => ?_⟩
  · rw [hend]
    rfl
  · intro p hp
    rw [hreg p.1 (by revert p; decide), ← hcells₂]
    exact hregs₃ p hp
  · intro r hr
    rw [hreg r (by revert r; decide), hkept r hr]
  · intro i
    rw [hend, ← hcells₂, ← hxmms₃ i, ← hxmm₄]
    rfl
  · rw [hend, ← hcells₂, ← hfcw₃, ← hfcw₄]
    rfl
  · rw [hend, ← hcells₂, ← hmxcsr₃, ← hmxcsr₄]
    rfl
  · rw [hend]
    rfl
  · calc (lfiSyscallEnd b u).thread = s₄.thread := by rw [hend, thread_exec]
      _ = s₂.thread := hthread₄.trans (thread_exec _ s₂)
      _ = u.thread := hthread₂.trans (thread_exec _ u)
  · calc (lfiSyscallEnd b u).mem (.ptr d i) = s₄.mem (.ptr d i) := by
          rw [hend, mem_exec (by decide)]
      _ = s₃.mem (.ptr d i) := hmem₄ d i hd
      _ = s₂.mem (.ptr d i) := congrFun (mem_exec (by decide) s₂) _
      _ = u.mem (.ptr d i) := hmem₂ d i htls

/-- `lfi_ctx_regs_init`, for a box with its base, return address and key. -/
def lfiCtxRegsInit (c : Nat) (base retaddr pkey : W) (m : Mem) : Mem :=
  (((((((m.set (.ptr (.ctx c) REGS_BASE) base).set (.ptr (.ctx c) REGS_RSP) base).set
    (.ptr (.ctx c) REGS_RETADDR) retaddr).set (.ptr (.ctx c) REGS_PKEY) pkey).set
    (.ptr (.ctx c) REGS_FCW) (.int 0x37f)).set (.ptr (.ctx c) REGS_MXCSR) (.int 0x1f80)).set
    (.ptr (.ctx c) REGS_R15) (.ptr (.ctxBlock c) 0))

/-! A whole runtime call. -/

def runtimeCall (b : Build) (handler : HostFn) (s : State) : State :=
  lfiSyscallEnd b (handler.run (lfiSyscallEntry b s))

/-- From its call in `t` to its return in `u`, a handler changes nothing in the
saved registers of the context but the result, and the context is still bound
to a thread. -/
structure KeepsRegs (b : Build) (c : Nat) (t u : State) : Prop where
  regs : ∀ o, REGS_HOST_SP ≤ o → o < CTX_ABORT_CALLBACK → o ≠ REGS_RAX →
    u.mem (.ptr (.ctx c) o) = t.mem (.ptr (.ctx c) o)
  cache : b.segue = true → b.segueCacheGs = true →
    ∃ x i, u.mem (.ptr (.ctx c) CTX_GS_CACHE) = .ptr (.tls x) i

/-- The sandbox goes on in `t` after its runtime call in `s`: the result and
`rcx` apart, with the register file it had. -/
structure Resumed (s t : State) : Prop where
  pc : t.pc = s.reg .r11
  reg : ∀ r, r ≠ .rax → r ≠ .rcx → t.reg r = s.reg r
  xmm : ∀ i, t.xmm i = s.xmm i
  fcw : t.fcw = s.fcw
  mxcsr : t.mxcsr = s.mxcsr

theorem handled_of_call (h : Calling c k s) (handler : HostFn)
    (hcache : b.segue = true → b.segueCacheGs = true →
      ∃ x i, (handler.run (lfiSyscallEntry b s)).mem (.ptr (.ctx c) CTX_GS_CACHE) =
        .ptr (.tls x) i) :
    Handled b c k (handler.run (lfiSyscallEntry b s)) := by
  obtain ⟨hthread, hrsp, hframe, hkept, -⟩ := lfiSyscallEntry_spec (b := b) h
  have hret := handler.returns (lfiSyscallEntry b s)
  have hthread' := hret.thread.trans hthread
  refine ⟨?_, ?_, ?_, hcache⟩
  · rw [hret.rsp, hrsp, hthread', Word.offset_ptr, show k - 16 + 8 = k - 8 by omega]
  · rw [← hthread] at hrsp
    rw [hthread', ← hframe, ← hthread]
    exact hret.stack _ hrsp _ (by omega)
  · rw [hret.saved .r15 (by decide), hkept .r15 (by decide), h.ctxReg]

/-- What a runtime call makes of the registers: the upper halves of the vector
registers are lost, and the control word of the vector unit is that of the
context. -/
theorem runtimeCall_spec (h : Calling c k s) (handler : HostFn)
    (hkeeps : KeepsRegs b c (lfiSyscallEntry b s) (handler.run (lfiSyscallEntry b s))) :
    let t := runtimeCall b handler s
    t.pc = s.reg .r11 ∧ (∀ r, r ≠ .rax → r ≠ .rcx → t.reg r = s.reg r) ∧
      (∀ i, t.xmm i = ((s.xmm i).1, .int 0)) ∧ t.fcw = s.fcw ∧
      t.mxcsr = s.mem (.ptr (.ctx c) REGS_MXCSR) := by
  obtain ⟨-, -, -, hkept, hregs, hxmms, hfcw, hcells, -⟩ := lfiSyscallEntry_spec (b := b) h
  obtain ⟨-, hregs', hkept', hxmms', hfcw', hmxcsr', hpc, -⟩ :=
    lfiSyscallEnd_spec (handled_of_call h handler hkeeps.cache)
  have hreg : ∀ r, r ≠ .rax → r ≠ .rcx → (runtimeCall b handler s).reg r = s.reg r := by
    intro r hrax hrcx
    rcases syscallSaved_or r hrax hrcx with ⟨o, ho⟩ | hr
    · have hrange : ∀ p ∈ syscallSaved,
          REGS_HOST_SP ≤ p.2 ∧ p.2 < CTX_ABORT_CALLBACK ∧ p.2 ≠ REGS_RAX := by
        decide
      obtain ⟨hle, hlt, hne⟩ := hrange _ ho
      exact (hregs' _ (List.mem_cons_of_mem _ ho)).trans
        ((hkeeps.regs o hle hlt hne).trans (hregs _ ho))
    · have hsaved : r ∈ calleeSaved := by
        revert r
        decide
      rw [← hkept r hr, ← (handler.returns (lfiSyscallEntry b s)).saved r hsaved]
      exact hkept' r hr
  refine ⟨?_, hreg, ?_, ?_, ?_⟩
  · exact hpc.trans (hreg .r11 (by decide) (by decide))
  · intro i
    have hcell : ∀ i : Fin 16, REGS_HOST_SP ≤ REGS_XMM i ∧ REGS_XMM i < CTX_ABORT_CALLBACK ∧
        REGS_XMM i ≠ REGS_RAX := by
      decide
    obtain ⟨hle, hlt, hne⟩ := hcell i
    rw [← hxmms i, ← hkeeps.regs _ hle hlt hne]
    exact hxmms' i
  · rw [← hfcw, ← hkeeps.regs REGS_FCW (by decide) (by decide) (by decide)]
    exact hfcw'
  · rw [← hcells REGS_MXCSR (by decide),
      ← hkeeps.regs REGS_MXCSR (by decide) (by decide) (by decide)]
    exact hmxcsr'

theorem resumed_iff (h : Calling c k s) (handler : HostFn)
    (hkeeps : KeepsRegs b c (lfiSyscallEntry b s) (handler.run (lfiSyscallEntry b s))) :
    Resumed s (runtimeCall b handler s) ↔
      (∀ i, (s.xmm i).2 = .int 0) ∧ s.mxcsr = s.mem (.ptr (.ctx c) REGS_MXCSR) := by
  obtain ⟨hpc, hreg, hxmm, hfcw, hmxcsr⟩ := runtimeCall_spec h handler hkeeps
  constructor
  · intro hres
    refine ⟨?_, hres.mxcsr.symm.trans hmxcsr⟩
    intro i
    rw [← hres.xmm i, hxmm i]
  · rintro ⟨hhigh, hctl⟩
    refine ⟨hpc, hreg, ?_, hfcw, hmxcsr.trans hctl.symm⟩
    intro i
    rw [hxmm i, ← hhigh i]

end LfiRuntime.X64
