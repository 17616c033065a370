import LfiRuntime.Arch.X64.Trampoline

/-!
What the parts of a trampoline do on the way into the sandbox.
-/

namespace LfiRuntime.X64

open LfiRuntime.BlockMemory
open LfiRuntime.Layout

def intArgs : List Reg := [.rdi, .rsi, .rdx, .rcx, .r8, .r9]

def xmmArgs : List (Fin 16) := [0, 1, 2, 3, 4, 5, 6, 7]

/-- Two states with the same argument registers. -/
structure SameArgs (s t : State) : Prop where
  reg : ∀ r ∈ intArgs, t.reg r = s.reg r
  xmm : ∀ i ∈ xmmArgs, t.xmm i = s.xmm i

/-- The cells outside the part of the host stack below `k`. -/
def OffStack (s : State) (k : Int) (a : W) : Prop :=
  ∀ o, o < k → a ≠ .ptr (.stack s.thread) o

variable {b : Build} {s t u : State} {k : Int} {p : W} {reg : Reg}

theorem SameArgs.trans (h : SameArgs s t) (h' : SameArgs t u) : SameArgs s u := by
  constructor
  · intro r hr
    rw [h'.reg r hr, h.reg r hr]
  · intro i hi
    rw [h'.xmm i hi, h.xmm i hi]

theorem offStack_of_le {o : Int} (h : k ≤ o) : OffStack s k (.ptr (.stack s.thread) o) := by
  intro i hi heq
  obtain ⟨-, rfl⟩ := Word.ptr.inj heq
  omega

theorem HostFn.mem_run (f : HostFn) (hsp : s.reg .rsp = .ptr (.stack s.thread) k) :
    ∀ o, k + 8 ≤ o →
      (f.run s).mem (.ptr (.stack s.thread) o) = s.mem (.ptr (.stack s.thread) o) :=
  (f.returns s).stack k hsp

theorem HostFn.rsp_run (f : HostFn) (hsp : s.reg .rsp = .ptr (.stack s.thread) k) :
    (f.run s).reg .rsp = .ptr (.stack s.thread) (k + 8) := by
  rw [(f.returns s).rsp, hsp, Word.offset_ptr]

/-- Entry code runs on a host stack pointer, and leaves the rest of the memory
alone. -/
structure OnStack (s t : State) (k j : Int) : Prop where
  rsp : t.reg .rsp = .ptr (.stack s.thread) j
  thread : t.thread = s.thread
  df : s.df = false → t.df = false
  mem : ∀ a, OffStack s k a → t.mem a = s.mem a

theorem OnStack.trans {i j : Int} (h : OnStack s t k j) (h' : OnStack t u j i)
    (hjk : j ≤ k) : OnStack s u k i := by
  refine ⟨?_, ?_, ?_, ?_⟩
  · rw [h'.rsp, h.thread]
  · rw [h'.thread, h.thread]
  · intro hdf
    exact h'.df (h.df hdf)
  · intro a ha
    rw [h'.mem a ?_, h.mem a ha]
    intro o ho
    rw [h.thread]
    exact ha o (by omega)

theorem trampolineSave_spec (hsp : s.reg .rsp = .ptr (.stack s.thread) k) :
    OnStack s (exec trampolineSave s) k (k - 56) ∧
      (∀ r, r ≠ .rsp → (exec trampolineSave s).reg r = s.reg r) ∧
      (exec trampolineSave s).xmm = s.xmm ∧
      (exec trampolineSave s).mem.Holds (.ptr (.stack s.thread) (k - 56))
        [s.reg .rbp, s.reg .rbx, s.reg .r12, s.reg .r13, s.reg .r14, .int 0, s.reg .r15] := by
  refine ⟨⟨?_, ?_, ?_, ?_⟩, ?_, ?_, ?_⟩ <;>
    simp +contextual -implicitDefEqProofs [trampolineSave, exec1, State.push, hsp, OffStack,
      Cells.Holds, Cells.set_apply, Int.sub_eq_add_neg, Int.add_assoc]

/-! `get_invoke_info`. -/

/-- What is saved around the call of `__tls_get_addr`, from the stack pointer
up; two words of padding follow the vector registers. -/
def tlsSaved (s : State) (pad : W × W) : List W :=
  [(s.xmm 0).1, (s.xmm 0).2, (s.xmm 1).1, (s.xmm 1).2, (s.xmm 2).1, (s.xmm 2).2,
    (s.xmm 3).1, (s.xmm 3).2, (s.xmm 4).1, (s.xmm 4).2, (s.xmm 5).1, (s.xmm 5).2,
    (s.xmm 6).1, (s.xmm 6).2, (s.xmm 7).1, (s.xmm 7).2, pad.1, pad.2,
    s.reg .r9, s.reg .r8, s.reg .rcx, s.reg .rdx, s.reg .rsi, s.reg .rdi]

theorem tlsSave_spec (hsp : s.reg .rsp = .ptr (.stack s.thread) k) :
    OnStack s (exec tlsSave s) k (k - 200) ∧
      (∀ r ∈ calleeSaved, (exec tlsSave s).reg r = s.reg r) ∧
      ∃ pad, (exec tlsSave s).mem.Holds (.ptr (.stack s.thread) (k - 192)) (tlsSaved s pad) := by
  refine ⟨⟨?_, ?_, ?_, ?_⟩, ?_,
    ⟨s.mem (.ptr (.stack s.thread) (k - 64)), s.mem (.ptr (.stack s.thread) (k - 56))⟩, ?_⟩ <;>
    simp +contextual -implicitDefEqProofs [tlsSave, tlsSaved, exec1, State.push, State.ea, hsp,
      OffStack, calleeSaved, Cells.Holds, Cells.set_apply, Int.sub_eq_add_neg, Int.add_assoc]

theorem tlsRestore_spec {pad : W × W} (hreg : reg = .r13 ∨ reg = .rbx)
    (hsp : t.reg .rsp = .ptr (.stack s.thread) (k - 192))
    (hsaved : t.mem.Holds (.ptr (.stack s.thread) (k - 192)) (tlsSaved s pad)) :
    (exec (tlsRestore reg) t).reg .rsp = .ptr (.stack s.thread) k ∧
      (exec (tlsRestore reg) t).reg reg = t.reg .rax ∧
      (∀ r ∈ calleeSaved, r ≠ reg → (exec (tlsRestore reg) t).reg r = t.reg r) ∧
      (exec (tlsRestore reg) t).mem = t.mem ∧ (exec (tlsRestore reg) t).df = t.df ∧
      (exec (tlsRestore reg) t).thread = t.thread ∧
      SameArgs s (exec (tlsRestore reg) t) := by
  simp -implicitDefEqProofs [tlsSaved, Cells.Holds, Int.sub_eq_add_neg, Int.add_assoc]
    at hsaved hsp
  rcases hreg with rfl | rfl
  all_goals
    refine ⟨?_, ?_, ?_, ?_, ?_, ?_, ⟨?_, ?_⟩⟩ <;>
      simp -implicitDefEqProofs [tlsRestore, exec1, State.top, State.drop, State.ea, hsp,
        hsaved, intArgs, xmmArgs, calleeSaved, Int.add_assoc]

theorem getInvokeInfo_spec (hreg : reg = .r13 ∨ reg = .rbx)
    (hsp : s.reg .rsp = .ptr (.stack s.thread) k) :
    OnStack s (getInvokeInfo b reg s) k k ∧
      (getInvokeInfo b reg s).reg reg = invokeInfo b s.thread ∧
      (∀ r ∈ calleeSaved, r ≠ reg → (getInvokeInfo b reg s).reg r = s.reg r) ∧
      SameArgs s (getInvokeInfo b reg s) := by
  unfold getInvokeInfo
  split
  · rcases hreg with rfl | rfl <;>
      refine ⟨⟨?_, ?_, ?_, ?_⟩, ?_, ?_, ⟨?_, ?_⟩⟩ <;>
      simp +contextual -implicitDefEqProofs [exec1, hsp, invokeInfo, Word.add, calleeSaved,
        intArgs, xmmArgs]
  · rcases hreg with rfl | rfl <;>
      refine ⟨⟨?_, ?_, ?_, ?_⟩, ?_, ?_, ⟨?_, ?_⟩⟩ <;>
      simp +contextual -implicitDefEqProofs [exec1, State.push, State.drop, State.top, State.ea,
        hsp, invokeInfo, Word.add, calleeSaved, intArgs, xmmArgs, OffStack, Cells.set_apply,
        Int.add_assoc]
  · rename_i tlsGetAddr _
    obtain ⟨hsave, hkept, pad, hsaved⟩ := tlsSave_spec hsp
    have hrun := tlsGetAddr.returns (exec tlsSave s)
    have hrsp := hsave.rsp
    rw [← hsave.thread] at hrsp
    have hframe := tlsGetAddr.mem_run hrsp
    rw [hsave.thread] at hframe
    have hout := tlsGetAddr.rsp_run hrsp
    rw [hsave.thread, show k - 200 + 8 = k - 192 by omega] at hout
    obtain ⟨hsp', hinfo, hkept', hmem, hdf, hthread, hargs⟩ :=
      tlsRestore_spec hreg hout (hsaved.congr fun i hi => hframe i (by omega))
    refine ⟨⟨hsp', ?_, ?_, ?_⟩, ?_, ?_, hargs⟩
    · rw [hthread, hrun.thread, hsave.thread]
    · intro h
      rw [hdf]
      exact hrun.df (hsave.df h)
    · intro a ha
      rw [hmem, tlsGetAddr.mem _ _ hrsp, hsave.mem a ha]
      rw [hsave.thread]
      intro o ho
      exact ha o (by omega)
    · rw [hinfo, tlsGetAddr.rax, hsave.thread, invokeInfo]
    · intro r hr hne
      rw [hkept' r hr hne, hrun.saved r hr, hkept r hr]

theorem loadInvokeInfo_spec (hinfo : s.reg .r13 = invokeInfo b s.thread) :
    (loadInvokeInfo b s).mem = s.mem ∧ (loadInvokeInfo b s).thread = s.thread ∧
      (loadInvokeInfo b s).df = s.df ∧ (loadInvokeInfo b s).reg .rsp = s.reg .rsp ∧
      (loadInvokeInfo b s).reg .r12 =
        s.mem ((invokeInfo b s.thread).offset INVOKE_TARGETFN) ∧
      (loadInvokeInfo b s).reg .r13 = s.mem ((invokeInfo b s.thread).offset INVOKE_CTX) ∧
      (loadInvokeInfo b s).reg .r11 = s.mem ((invokeInfo b s.thread).offset INVOKE_CTX) ∧
      (b.segueCacheGs = true →
        (loadInvokeInfo b s).reg .rbx = (invokeInfo b s.thread).offset INVOKE_GS_BASE) ∧
      SameArgs s (loadInvokeInfo b s) := by
  unfold loadInvokeInfo
  cases b.segueCacheGs <;>
    refine ⟨?_, ?_, ?_, ?_, ?_, ?_, ?_, ?_, ⟨?_, ?_⟩⟩ <;>
    simp -implicitDefEqProofs [exec1, State.ea, hinfo, intArgs, xmmArgs]

/-- A call of a trampoline by `LFI_INVOKE`, with the context pointer kept at
`blk + o`. -/
structure Invoked (b : Build) (s : State) (k : Int) (blk : Block) (o : Int) : Prop where
  rsp : s.reg .rsp = .ptr (.stack s.thread) k
  ctxp : s.mem ((invokeInfo b s.thread).offset INVOKE_CTX) = .ptr blk o
  /-- The variable is not on the stack below its caller. -/
  above : OffStack s k (.ptr blk o)

theorem trampolineEntry_spec {blk : Block} {o : Int} (h : Invoked b s k blk o) :
    OnStack s (trampolineEntry b s) k (k - 56) ∧
      (trampolineEntry b s).reg .r11 = .ptr blk o ∧
      (trampolineEntry b s).reg .r13 = .ptr blk o ∧
      (b.segueCacheGs = true →
        (trampolineEntry b s).reg .rbx = (invokeInfo b s.thread).offset INVOKE_GS_BASE) ∧
      SameArgs s (trampolineEntry b s) ∧
      (trampolineEntry b s).mem.Holds (.ptr (.stack s.thread) (k - 56))
        [s.reg .rbp, s.reg .rbx, s.reg .r12, s.reg .r13, s.reg .r14, .int 0, s.reg .r15] := by
  obtain ⟨hsave, hreg, hxmm, hsaved⟩ := trampolineSave_spec h.rsp
  let s₁ := exec trampolineSave s
  have hrsp₁ : s₁.reg .rsp = .ptr (.stack s₁.thread) (k - 56) := by
    rw [hsave.rsp, hsave.thread]
  obtain ⟨hget, hinfo, -, hargs₂⟩ := getInvokeInfo_spec (b := b) (.inl rfl) hrsp₁
  let s₂ := getInvokeInfo b .r13 s₁
  have hinfo₂ : s₂.reg .r13 = invokeInfo b s₂.thread := by
    rw [hinfo, hget.thread]
  obtain ⟨hmem₃, hthread₃, hdf₃, hrsp₃, -, hr13, hr11, hrbx, hargs₃⟩ := loadInvokeInfo_spec hinfo₂
  have hall : OnStack s s₂ k (k - 56) := hsave.trans hget (by omega)
  have hctxp : s₂.mem ((invokeInfo b s₂.thread).offset INVOKE_CTX) = .ptr blk o := by
    rw [hall.thread, hall.mem _ ?_, h.ctxp]
    intro i _
    simp [invokeInfo]
  refine ⟨⟨?_, ?_, ?_, ?_⟩, ?_, ?_, ?_, ?_, ?_⟩
  · exact hrsp₃.trans hall.rsp
  · exact hthread₃.trans hall.thread
  · intro hdf
    rw [← hall.df hdf]
    exact hdf₃
  · intro a ha
    rw [← hall.mem a ha]
    exact congrFun hmem₃ a
  · exact hr11.trans hctxp
  · exact hr13.trans hctxp
  · intro hcache
    rw [← hall.thread]
    exact hrbx hcache
  · have hargs₁ : SameArgs s s₁ := by
      constructor
      · intro r hr
        exact hreg r (by revert r; decide)
      · intro i _
        exact congrFun hxmm i
    exact hargs₁.trans (hargs₂.trans hargs₃)
  · refine hsaved.congr fun i hi => ?_
    rw [← hget.mem]
    · exact congrFun hmem₃ _
    · rw [← hsave.thread]
      exact offStack_of_le hi

theorem trampolineEntry_target {blk : Block} {o : Int} (h : Invoked b s k blk o) :
    (trampolineEntry b s).reg .r12 = s.mem ((invokeInfo b s.thread).offset INVOKE_TARGETFN) := by
  obtain ⟨hsave, -⟩ := trampolineSave_spec h.rsp
  let s₁ := exec trampolineSave s
  have hrsp₁ : s₁.reg .rsp = .ptr (.stack s₁.thread) (k - 56) := by
    rw [hsave.rsp, hsave.thread]
  obtain ⟨hget, hinfo, -⟩ := getInvokeInfo_spec (b := b) (.inl rfl) hrsp₁
  have hinfo₂ : (getInvokeInfo b .r13 s₁).reg .r13 =
      invokeInfo b (getInvokeInfo b .r13 s₁).thread := by
    rw [hinfo, hget.thread]
  obtain ⟨-, -, -, -, hr12, -⟩ := loadInvokeInfo_spec hinfo₂
  have hall : OnStack s (getInvokeInfo b .r13 s₁) k (k - 56) := hsave.trans hget (by omega)
  rw [← hall.mem ((invokeInfo b s.thread).offset INVOKE_TARGETFN) ?_, ← hall.thread]
  · exact hr12
  · intro i _
    simp [invokeInfo]

/-- The fast path, with a context already there. -/
theorem lazyCtxClone_of_ne (clone : HostFn) {blk : Block} {o : Int} (hp : s.reg .r11 = .ptr blk o)
    (hne : s.mem (.ptr blk o) ≠ .int 0#64) :
    (lazyCtxClone clone s).mem = s.mem ∧ (lazyCtxClone clone s).thread = s.thread ∧
      (lazyCtxClone clone s).df = s.df ∧
      (lazyCtxClone clone s).reg .r11 = s.mem (.ptr blk o) ∧
      (∀ r, r ≠ .r11 → (lazyCtxClone clone s).reg r = s.reg r) ∧
      SameArgs s (lazyCtxClone clone s) := by
  refine ⟨?_, ?_, ?_, ?_, ?_, ⟨?_, ?_⟩⟩ <;>
    simp +contextual -implicitDefEqProofs [lazyCtxClone, exec1, State.ea, hp, hne, Flags.zf,
      intArgs, xmmArgs]

/-! `.lfi_trampoline_common`. -/

theorem commonSwitch_spec {c : Block} (hsp : s.reg .rsp = .ptr (.stack s.thread) k)
    (hctx : s.reg .r11 = .ptr c 0) (hstack : c ≠ .stack s.thread) :
    (exec commonSwitch s).reg .rsp = s.mem (.ptr c REGS_RSP) ∧
      (exec commonSwitch s).reg .r14 = s.mem (.ptr c REGS_BASE) ∧
      (∀ r, r ≠ .rsp → r ≠ .r14 → (exec commonSwitch s).reg r = s.reg r) ∧
      (exec commonSwitch s).thread = s.thread ∧ (exec commonSwitch s).df = s.df ∧
      (exec commonSwitch s).xmm = s.xmm ∧
      (exec commonSwitch s).mem = (s.mem.set (.ptr (.stack s.thread) (k - 8))
        (s.mem (.ptr c REGS_RSP))).set (.ptr c REGS_HOST_SP) (.ptr (.stack s.thread) (k - 8)) := by
  refine ⟨?_, ?_, ?_, ?_, ?_, ?_, ?_⟩ <;>
    simp +contextual -implicitDefEqProofs [commonSwitch, exec1, State.push, State.ea, hsp, hctx,
      hstack, Cells.set_apply, REGS_HOST_SP, REGS_RSP, REGS_BASE, REGS_R14, Int.sub_eq_add_neg]

theorem sameArgs_exec {is : List Instr} (hreg : ∀ i ∈ is, ∀ r ∈ intArgs, r ∉ i.regs)
    (hxmm : ∀ i ∈ is, ∀ x ∈ xmmArgs, x ∉ i.xmms) (s : State) : SameArgs s (exec is s) := by
  constructor
  · intro r hr
    exact reg_exec (fun i hi => hreg i hi r hr) s
  · intro x hx
    exact xmm_exec (fun i hi => hxmm i hi x hx) s

theorem segGsSet_spec (b : Build) (ctx scratch : Reg) (s : State) :
    (∀ r, r ≠ scratch → (segGsSet b ctx scratch s).reg r = s.reg r) ∧
      (segGsSet b ctx scratch s).xmm = s.xmm ∧
      (segGsSet b ctx scratch s).thread = s.thread ∧ (segGsSet b ctx scratch s).df = s.df ∧
      ∀ a, (b.segueCacheGs = true → a ≠ (s.mem (s.ea CTX_GS_CACHE ctx)).offset 0) →
        (segGsSet b ctx scratch s).mem a = s.mem a := by
  unfold segGsSet
  cases b.segueCacheGs with
  | false => simp [exec1]
  | true =>
      simp only [if_true]
      split <;>
        refine ⟨?_, ?_, ?_, ?_, ?_⟩ <;>
        simp +contextual -implicitDefEqProofs [exec1, State.ea, Cells.set_apply]

theorem commonSegue_regs (b : Build) (s : State) :
    (∀ r, r ≠ .rbx → (commonSegue b s).reg r = s.reg r) ∧
      (commonSegue b s).xmm = s.xmm ∧ (commonSegue b s).thread = s.thread ∧
      (commonSegue b s).df = s.df := by
  unfold commonSegue
  cases b.segue with
  | false => simp
  | true =>
      simp only [if_true]
      obtain ⟨hreg, hxmm, hthread, hdf, -⟩ := segGsSet_spec b .r11 .rbx
        (if b.segueCacheGs then exec [.store .rbx CTX_GS_CACHE .r11] s else s)
      cases hcache : b.segueCacheGs <;> simp only [hcache] at hreg hxmm hthread hdf <;>
        exact ⟨hreg, hxmm, hthread, hdf⟩

/-- The cells that `.lfi_trampoline_common` may write besides the frame. -/
def GsCell (b : Build) (s : State) (c : Block) (a : W) : Prop :=
  b.segueCacheGs = true ∧ (a = .ptr c CTX_GS_CACHE ∨ a = (s.reg .rbx).offset 0)

theorem commonSegue_mem {c : Block} (hctx : s.reg .r11 = .ptr c 0) {a : W}
    (ha : ¬GsCell b s c a) : (commonSegue b s).mem a = s.mem a := by
  unfold commonSegue
  cases b.segue with
  | false => rfl
  | true =>
      simp only [if_true]
      cases hcache : b.segueCacheGs with
      | false => simp [segGsSet, hcache, exec1]
      | true =>
          simp only [GsCell, hcache, true_and, not_or] at ha
          obtain ⟨-, -, -, -, hmem⟩ := segGsSet_spec b .r11 .rbx
            (exec [.store .rbx CTX_GS_CACHE .r11] s)
          simp only [if_true]
          rw [hmem]
          · simp [exec1, State.ea, hctx, Cells.set_apply, ha.1]
          · intro _
            simpa [exec1, State.ea, hctx] using ha.2

/-- The context is bound to the cache of the thread. -/
theorem commonSegue_cache {c : Block} (hctx : s.reg .r11 = .ptr c 0)
    (hrbx : (s.reg .rbx).offset 0 ≠ .ptr c CTX_GS_CACHE) (hsegue : b.segue = true)
    (hcache : b.segueCacheGs = true) :
    (commonSegue b s).mem (.ptr c CTX_GS_CACHE) = s.reg .rbx := by
  obtain ⟨-, -, -, -, hmem⟩ := segGsSet_spec b .r11 .rbx
    (exec [.store .rbx CTX_GS_CACHE .r11] s)
  simp only [commonSegue, hsegue, hcache, if_true]
  rw [hmem]
  · simp [exec1, State.ea, hctx]
  · intro _
    simpa [exec1, State.ea, hctx] using hrbx.symm

theorem loadFp_spec (b : Build) (ctx : Reg) (s : State) :
    (loadFp b ctx s).reg = s.reg ∧ (loadFp b ctx s).xmm = s.xmm ∧
      (loadFp b ctx s).mem = s.mem ∧ (loadFp b ctx s).thread = s.thread ∧
      (loadFp b ctx s).df = s.df := by
  unfold loadFp
  cases b.storesOnly <;> exact ⟨rfl, rfl, rfl, rfl, rfl⟩

theorem pkuBoxAccess_spec (b : Build) (s : State) :
    (∀ r, r ≠ .rax → r ≠ .rcx → r ≠ .rdx → (pkuBoxAccess b s).reg r = s.reg r) ∧
      (pkuBoxAccess b s).xmm = s.xmm ∧ (pkuBoxAccess b s).mem = s.mem ∧
      (pkuBoxAccess b s).thread = s.thread ∧ (pkuBoxAccess b s).df = s.df := by
  unfold pkuBoxAccess
  cases b.storesOnly <;>
    refine ⟨?_, ?_, ?_, ?_, ?_⟩ <;>
    simp +contextual -implicitDefEqProofs [exec1]

theorem commonPku_spec (b : Build) (s : State) :
    SameArgs s (commonPku b s) ∧
      (∀ r, r ∉ [.rax, .rbx, .rbp] → (commonPku b s).reg r = s.reg r) ∧
      (commonPku b s).mem = s.mem ∧ (commonPku b s).thread = s.thread ∧
      (commonPku b s).df = s.df := by
  unfold commonPku
  cases b.pku with
  | false => exact ⟨⟨fun _ _ => rfl, fun _ _ => rfl⟩, fun _ _ => rfl, rfl, rfl, rfl⟩
  | true =>
      simp only [if_true]
      obtain ⟨hreg, hxmm, hmem, hthread, hdf⟩ := pkuBoxAccess_spec b
        (exec [.mov .rcx .rbx, .mov .rdx .rbp, .load REGS_PKEY .r13 .rcx] s)
      have hout : ∀ r, r ∉ [Reg.rax, .rbx, .rbp] → (exec [.mov .rbp .rdx, .mov .rbx .rcx]
          (pkuBoxAccess b
            (exec [.mov .rcx .rbx, .mov .rdx .rbp, .load REGS_PKEY .r13 .rcx] s))).reg r =
          s.reg r := by
        intro r hr
        simp only [List.mem_cons, List.not_mem_nil, or_false, not_or] at hr
        cases r <;> simp_all [exec1]
      refine ⟨⟨?_, ?_⟩, hout, ?_, ?_, ?_⟩
      · intro r hr
        exact hout r (by revert r; decide)
      · intro i _
        exact congrFun hxmm i
      · exact hmem
      · exact hthread
      · exact hdf

theorem zeroRegs_spec (b : Build) (s : State) :
    SameArgs s (if b.storesOnly then s else exec zeroRegs s) ∧
      (if b.storesOnly then s else exec zeroRegs s).mem = s.mem ∧
      (if b.storesOnly then s else exec zeroRegs s).thread = s.thread ∧
      (if b.storesOnly then s else exec zeroRegs s).df = s.df ∧
      ∀ r ∈ [Reg.rsp, .r11, .r14, .r15],
        (if b.storesOnly then s else exec zeroRegs s).reg r = s.reg r := by
  cases b.storesOnly with
  | true => exact ⟨⟨fun _ _ => rfl, fun _ _ => rfl⟩, rfl, rfl, rfl, fun _ _ => rfl⟩
  | false =>
      refine ⟨sameArgs_exec (by decide) (by decide) s, mem_exec (by decide) s,
        thread_exec _ s, rfl, ?_⟩
      intro r hr
      exact reg_exec (by revert r; decide) s

theorem commonTarget_regs (s : State) :
    SameArgs s (exec commonTarget s) ∧ (exec commonTarget s).thread = s.thread ∧
      (exec commonTarget s).df = s.df ∧
      ∀ r ∈ [Reg.r14, .r15], (exec commonTarget s).reg r = s.reg r := by
  refine ⟨sameArgs_exec (by decide) (by decide) s, thread_exec _ s, rfl, ?_⟩
  intro r hr
  exact reg_exec (by revert r; decide) s

/-- A push on the sandbox stack, which no host pointer names. -/
theorem commonTarget_spec {w : W} {f : BitVec 64 → BitVec 64} (hsp : s.reg .rsp = w.map f) :
    (exec commonTarget s).reg .rsp = (w.map f).offset (-8) ∧
      ∀ d i, (exec commonTarget s).mem (.ptr d i) = s.mem (.ptr d i) := by
  constructor
  · simp -implicitDefEqProofs [commonTarget, exec1, State.push, hsp]
  · intro d i
    have hne : Word.ptr d i ≠ (w.map f).offset (-8) := by
      cases w <;> simp [Word.map, Word.offset]
    simp -implicitDefEqProofs [commonTarget, exec1, State.push, hsp, Cells.set_apply, hne]

/-- The argument registers from the switch of the stacks to the first
instruction of the sandbox. -/
theorem commonEnter_args : SameArgs s (commonEnter b s) := by
  obtain ⟨hreg₁, hxmm₁, -, -⟩ := commonSegue_regs b s
  let s₂ := exec commonLoad (commonSegue b s)
  obtain ⟨hreg₃, hxmm₃, -, -, -⟩ := loadFp_spec b .r13 s₂
  let s₄ := commonPku b (loadFp b .r13 s₂)
  obtain ⟨hargs₆, -⟩ := zeroRegs_spec b (exec commonTarget s₄)
  have hargs₁ : SameArgs s (commonSegue b s) := by
    constructor
    · intro r hr
      exact hreg₁ r (by revert r; decide)
    · intro i _
      exact congrFun hxmm₁ i
  have hargs₂ : SameArgs (commonSegue b s) s₂ := sameArgs_exec (by decide) (by decide) _
  have hargs₃ : SameArgs s₂ (loadFp b .r13 s₂) :=
    ⟨fun r _ => congrFun hreg₃ r, fun i _ => congrFun hxmm₃ i⟩
  have hjmp : SameArgs (exec commonTarget s₄) (commonEnter b s) := ⟨hargs₆.reg, hargs₆.xmm⟩
  exact hargs₁.trans (hargs₂.trans (hargs₃.trans
    ((commonPku_spec b _).1.trans ((commonTarget_regs s₄).1.trans hjmp))))

/-- The registers and the memory at the first instruction of the sandbox. -/
theorem commonEnter_spec {c blk : Block} {o : Int} (hctx : s.reg .r11 = .ptr c 0)
    (hp : s.reg .r13 = .ptr blk o) (hslot : s.mem (.ptr blk o) = .ptr c 0)
    (hgs : ¬GsCell b s c (.ptr blk o)) (hgsc : ¬GsCell b s c (.ptr c REGS_R15)) :
    (commonEnter b s).thread = s.thread ∧ (commonEnter b s).df = s.df ∧
      (commonEnter b s).reg .r14 = s.reg .r14 ∧
      (commonEnter b s).reg .r15 = s.mem (.ptr c REGS_R15) ∧
      (commonEnter b s).reg .rsp =
        ((s.reg .rsp).map (· &&& 0xfffffffffffffff0)).offset (-8) ∧
      ∀ d i, (commonEnter b s).mem (.ptr d i) = (commonSegue b s).mem (.ptr d i) := by
  obtain ⟨hreg₁, -, hthread₁, hdf₁⟩ := commonSegue_regs b s
  let s₁ := commonSegue b s
  let s₂ := exec commonLoad s₁
  obtain ⟨hreg₃, -, hmem₃, hthread₃, hdf₃⟩ := loadFp_spec b .r13 s₂
  let s₃ := loadFp b .r13 s₂
  obtain ⟨-, hreg₄, hmem₄, hthread₄, hdf₄⟩ := commonPku_spec b s₃
  let s₄ := commonPku b s₃
  have hptr : s₁.mem (.ptr blk o) = .ptr c 0 := by
    rw [← hslot]
    exact commonSegue_mem hctx hgs
  have hrsp₂ : s₂.reg .rsp = (s.reg .rsp).map (· &&& 0xfffffffffffffff0) := by
    simp -implicitDefEqProofs [s₂, commonLoad, exec1, s₁, hreg₁]
  have hr15 : s₂.reg .r15 = s.mem (.ptr c REGS_R15) := by
    rw [← commonSegue_mem hctx hgsc]
    have hr13 : s₁.reg .r13 = .ptr blk o := by
      rw [← hp]
      exact hreg₁ _ (by decide)
    simp -implicitDefEqProofs [s₂, commonLoad, exec1, State.ea, hr13, hptr]
    rfl
  have hr14 : s₂.reg .r14 = s.reg .r14 := by
    simp -implicitDefEqProofs [s₂, commonLoad, exec1, s₁, hreg₁]
  have hreg : ∀ r, r ∉ [Reg.rax, .rbx, .rbp] → s₄.reg r = s₂.reg r := by
    intro r hr
    rw [show s₄.reg r = s₃.reg r from hreg₄ r hr]
    exact congrFun hreg₃ r
  obtain ⟨-, hthread₅, hdf₅, hreg₅⟩ := commonTarget_regs s₄
  obtain ⟨hrsp₅, hmem₅⟩ := commonTarget_spec ((hreg .rsp (by decide)).trans hrsp₂)
  let s₅ := exec commonTarget s₄
  obtain ⟨-, hmem₆, hthread₆, hdf₆, hreg₆⟩ := zeroRegs_spec b s₅
  refine ⟨?_, ?_, ?_, ?_, ?_, ?_⟩
  · calc (commonEnter b s).thread = s₅.thread := hthread₆
      _ = s₄.thread := hthread₅
      _ = s₂.thread := hthread₄.trans hthread₃
      _ = s.thread := (thread_exec _ s₁).trans hthread₁
  · calc (commonEnter b s).df = s₅.df := hdf₆
      _ = s₄.df := hdf₅
      _ = s₂.df := hdf₄.trans hdf₃
      _ = s.df := hdf₁
  · calc (commonEnter b s).reg .r14 = s₅.reg .r14 := hreg₆ _ (by decide)
      _ = s₄.reg .r14 := hreg₅ _ (by decide)
      _ = s.reg .r14 := (hreg _ (by decide)).trans hr14
  · calc (commonEnter b s).reg .r15 = s₅.reg .r15 := hreg₆ _ (by decide)
      _ = s₄.reg .r15 := hreg₅ _ (by decide)
      _ = s.mem (.ptr c REGS_R15) := (hreg _ (by decide)).trans hr15
  · exact (hreg₆ _ (by decide)).trans hrsp₅
  · intro d i
    calc (commonEnter b s).mem (.ptr d i) = s₅.mem (.ptr d i) := congrFun hmem₆ _
      _ = s₄.mem (.ptr d i) := hmem₅ d i
      _ = s₂.mem (.ptr d i) := congrFun (hmem₄.trans hmem₃) _
      _ = s₁.mem (.ptr d i) := congrFun (mem_exec (by decide) s₁) _

end LfiRuntime.X64
