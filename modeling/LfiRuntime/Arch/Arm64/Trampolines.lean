import LfiRuntime.Arch.Arrival
import LfiRuntime.Arch.Arm64.StructEntry

/-!
The three trampolines, entered with the same context, target and arguments.
-/

namespace LfiRuntime.Arm64

open LfiRuntime.BlockMemory
open LfiRuntime.Layout

def arrival (t : State) : Arrival where
  pc := t.pc
  base := t.x 27
  ctxReg := t.x 25
  retAddr := t.x 30
  sp := t.sp
  ints := intArgs.map t.x
  floats := vecArgs.map fun i => (t.v i).1

def uxtw (n : BitVec 64) : BitVec 64 := (n.truncate 32).zeroExtend 64

/-- The entry that all trampolines are for. -/
def expected (i : Passed) : Arrival where
  pc := (Word.int (uxtw i.target)).add (.int i.base)
  base := .int i.base
  ctxReg := i.ctxReg
  retAddr := i.retAddr
  sp := .int i.sp
  ints := i.ints
  floats := i.floats

def Stored (i : Passed) : Mem → Prop := i.Stored REGS_SP REGS_BASE (REGS_X 25)

/-- A call with `lfi_invoke_info`. -/
structure InvokeCall (b : Build) (i : Passed) (s : State) : Prop where
  call : ∃ k, Invoked b s k i.slot i.off
  box : s.mem ((invokeInfo b s.thread).offset INVOKE_BOX) = i.box
  target : s.mem ((invokeInfo b s.thread).offset INVOKE_TARGETFN) = .int i.target
  stored : Stored i s.mem

/-- A call of `lfi_trampoline`. -/
structure PlainCall (b : Build) (i : Passed) (s : State) : Prop extends InvokeCall b i s where
  ints : intArgs.map s.x = i.ints
  floats : (vecArgs.map fun x => (s.v x).1) = i.floats

/-- Where a context keeps what goes to `intArgs`, the indirect result register among them. -/
def argCells : List Int := (List.range 9).map REGS_X

/-- A call of `lfi_trampoline_struct`. -/
structure StructCall (b : Build) (i : Passed) (s : State) : Prop extends InvokeCall b i s where
  ints : (argCells.map fun o => s.mem (.ptr (.ctx i.ctx) o)) = i.ints
  floats : (vecArgCells.map fun o => s.mem (.ptr (.ctx i.ctx) o)) = i.floats

/-- A call of `lfi_trampoline_direct`. -/
structure DirectCall (i : Passed) (s : State) : Prop where
  call : ∃ k nStack, s.sp = .ptr (.stack s.thread) k ∧
    s.mem.Holds (.ptr (.stack s.thread) k) [.ptr i.slot i.off, i.box, .int i.target, nStack] ∧
    OffStack s (k + 32) (.ptr i.slot i.off)
  stored : Stored i s.mem
  ints : intArgs.map s.x = i.ints
  floats : (vecArgs.map fun x => (s.v x).1) = i.floats

variable {b : Build} {i : Passed} {c : Nat} {s t u : State} {k : Int}

theorem loadStructArgs_ints (hctx : s.x 13 = .ptr (.ctx c) 0) :
    intArgs.map (exec loadStructArgs s).x = argCells.map fun o => s.mem (.ptr (.ctx c) o) := by
  simp -implicitDefEqProofs [loadStructArgs, exec1, hctx, intArgs, argCells, List.range_succ]

theorem trampolineEntry_target {blk : Block} {o : Int} (h : Invoked b s k blk o) :
    (trampolineEntry b s).x 22 = s.mem ((invokeInfo b s.thread).offset INVOKE_TARGETFN) := by
  obtain ⟨hsp₁, hthread₁, -, -, hmem₁, -⟩ := trampolineSave_spec h.sp
  let s₁ := exec trampolineSave (exec [.paciasp] s)
  obtain ⟨hinfo, -, -, hmem₂, -⟩ := getInvokeInfo_spec (b := b) s₁
  let s₂ := getInvokeInfo b (.x 19) s₁
  have hcell : s₂.mem ((invokeInfo b s.thread).offset INVOKE_TARGETFN) =
      s.mem ((invokeInfo b s.thread).offset INVOKE_TARGETFN) := by
    rw [← hmem₁ _ (by intro j _; simp [invokeInfo])]
    exact congrFun hmem₂ _
  rw [← hcell, ← hthread₁, ← hinfo]
  simp [trampolineEntry, loadInvokeInfo, exec1, s₂, s₁]

/-- Before `zero_regs`. -/
theorem commonSwitch_view (hctx : s.x 13 = .ptr (.ctx c) 0)
    (hsp : s.sp = .ptr (.stack s.thread) k) :
    let t := exec commonSwitch s
    t.x 10 = s.x 22 ∧ t.x 27 = s.mem (.ptr (.ctx c) REGS_BASE) ∧
      t.x 25 = s.mem (.ptr (.ctx c) (REGS_X 25)) := by
  refine ⟨?_, ?_, ?_⟩ <;>
    simp -implicitDefEqProofs [commonSwitch, exec1, hctx, hsp, Cells.set_apply, REGS_BASE, REGS_X,
      REGS_HOST_SP]

/-- The jump into the sandbox. -/
theorem pc_lfiTrampolineCommon (b : Build) (u : State) :
    (lfiTrampolineCommon b u).pc =
      ((u.x 22).map uxtw).add ((exec commonSwitch u).x 27) := by
  have hx10 : (exec commonSwitch u).x 10 = u.x 22 := by
    simp [commonSwitch, exec1]
  let s₁ := exec commonSwitch u
  let s₂ := if b.storesOnly then s₁ else exec zeroRegs s₁
  have hkept : ∀ n ∈ [10, 27], s₂.x n = s₁.x n := by
    intro n hn
    unfold s₂
    cases b.storesOnly with
    | true => rfl
    | false => exact x_exec (by revert n; decide) s₁
  rw [← hx10, ← hkept 10 (by decide), ← hkept 27 (by decide)]
  simp -implicitDefEqProofs [lfiTrampolineCommon, exec1, s₂, s₁]
  rfl

theorem arrival_common (hctx : u.x 13 = .ptr (.ctx i.ctx) 0)
    (hsp : u.sp = .ptr (.stack u.thread) k)
    (hcells : ∀ o, u.mem (.ptr (.ctx i.ctx) o) = s.mem (.ptr (.ctx i.ctx) o))
    (hs : Stored i s.mem) (htarget : u.x 22 = .int i.target)
    (hints : intArgs.map u.x = i.ints) (hfloats : (vecArgs.map fun x => (u.v x).1) = i.floats) :
    arrival (lfiTrampolineCommon b u) = expected i := by
  obtain ⟨hsp', hret, -⟩ := lfiTrampolineCommon_entry (b := b) hctx hsp
  obtain ⟨-, hbase, hctxReg⟩ := commonSwitch_view hctx hsp
  have hargs : SameArgs u (lfiTrampolineCommon b u) := lfiTrampolineCommon_args
  let s₁ := exec commonSwitch u
  have hkept : ∀ n ∈ [25, 27], (lfiTrampolineCommon b u).x n = s₁.x n := by
    let s₂ := if b.storesOnly then s₁ else exec zeroRegs s₁
    have hjump : ∀ n ∈ [25, 27],
        ∀ i ∈ [Instr.addUxtw (.x 16) REG_BASE (.x 10), .br (.x 16)], Reg.x n ∉ i.regs := by
      decide
    intro n hn
    have hzero : s₂.x n = s₁.x n := by
      unfold s₂
      cases b.storesOnly with
      | true => rfl
      | false => exact x_exec (by revert n; decide) s₁
    rw [← hzero]
    exact x_exec (hjump n hn) s₂
  simp only [arrival, expected, Arrival.mk.injEq]
  refine ⟨?_, ?_, ?_, ?_, ?_, ?_, hargs.floats.trans hfloats⟩
  · rw [pc_lfiTrampolineCommon, htarget, hbase, hcells, hs.base]
    rfl
  · rw [hkept 27 (by decide), hbase, hcells, hs.base]
  · rw [hkept 25 (by decide), hctxReg, hcells, hs.ctxReg]
  · rw [hret, hcells, hs.retAddr]
  · rw [hsp', hcells, hs.sp]
  · exact (List.map_congr_left hargs.x).trans hints

/-- After `lazy_ctx_clone`, which has found the context. -/
theorem InvokeCall.prepared (clone : HostFn) (h : InvokeCall b i s) :
    ∃ k, let u := lazyCtxClone clone (trampolineEntry b s)
      u.x 13 = .ptr (.ctx i.ctx) 0 ∧ u.sp = .ptr (.stack u.thread) k ∧
      (∀ o, u.mem (.ptr (.ctx i.ctx) o) = s.mem (.ptr (.ctx i.ctx) o)) ∧
      u.x 22 = .int i.target ∧ SameArgs s u := by
  obtain ⟨k, hcall⟩ := h.call
  obtain ⟨hsp, hthread, hx20, hmem, hargs, -⟩ := trampolineEntry_spec hcall
  let s₁ := trampolineEntry b s
  have hslot : s₁.mem (.ptr i.slot i.off) = .ptr (.ctx i.ctx) 0 := by
    rw [hmem _ hcall.above, h.stored.slot]
  have hne : s₁.mem (.ptr i.slot i.off) ≠ .int 0#64 := by
    rw [hslot]
    simp
  rw [lazyCtxClone_of_ne clone hx20 hne]
  refine ⟨k - 160, ?_, ?_, fun o => ?_, ?_, ?_⟩
  · rw [← hslot]
    simp [exec1, s₁, hx20]
  · rw [thread_exec, hthread, ← hsp]
    exact reg_exec (r := .sp) (by decide) s₁
  · rw [← hmem _ (by intro j _; simp)]
    exact congrFun (mem_exec (by decide) s₁) _
  · rw [← h.target, ← trampolineEntry_target hcall]
    exact x_exec (by decide) s₁
  · exact hargs.trans (sameArgs_exec (by decide) (by decide) s₁)

theorem arrival_plain (clone : HostFn) (h : PlainCall b i s) :
    arrival (lfiTrampoline b clone s) = expected i := by
  obtain ⟨k, hctx, hsp, hcells, htarget, hargs⟩ := h.prepared clone
  exact arrival_common hctx hsp hcells h.stored htarget
    ((List.map_congr_left hargs.x).trans h.ints) (hargs.floats.trans h.floats)

theorem arrival_struct (clone : HostFn) (h : StructCall b i s) :
    arrival (lfiTrampolineStruct b clone s) = expected i := by
  obtain ⟨k, hctx, hsp, hcells, htarget, -⟩ := h.prepared clone
  let u := lazyCtxClone clone (trampolineEntry b s)
  have hmem : (exec loadStructArgs u).mem = u.mem := mem_exec (by decide) u
  refine arrival_common (u := exec loadStructArgs u) (k := k) ?_ ?_ (fun o => ?_) h.stored ?_ ?_ ?_
  · rw [← hctx]
    exact x_exec (by decide) u
  · rw [thread_exec, ← hsp]
    exact reg_exec (r := .sp) (by decide) u
  · rw [hmem, hcells]
  · rw [← htarget]
    exact x_exec (by decide) u
  · rw [loadStructArgs_ints hctx, ← h.ints]
    exact List.map_congr_left fun o _ => hcells o
  · rw [(loadStructArgs_spec hctx).2, ← h.floats]
    exact List.map_congr_left fun o _ => hcells o

/-! The direct trampoline. -/

/-- It takes its own arguments off the stack: the pointers end up in `x22` and `x21`, the
target in `x20`. -/
def directSave : List Instr :=
  [.ldpPost (.x 10) (.x 13) 16, .ldpPost (.x 11) (.x 12) 16, .paciasp] ++
    (trampolineSave ++ [.mov (.x 22) (.x 10), .mov (.x 20) (.x 11), .mov (.x 21) (.x 12)])

theorem lfiTrampolineDirect_eq (b : Build) (clone : HostFn) (s : State) :
    lfiTrampolineDirect b clone s =
      lfiTrampolineCommon b (lazyCtxClone clone (exec directSave s)) := rfl

theorem directSave_spec {p x n nStack : W} (hsp : s.sp = .ptr (.stack s.thread) k)
    (hargs : s.mem.Holds (.ptr (.stack s.thread) k) [p, x, n, nStack]) :
    let t := exec directSave s
    t.sp = .ptr (.stack t.thread) (k - 128) ∧ t.x 22 = p ∧ t.x 20 = n ∧ t.x 21 = nStack := by
  simp -implicitDefEqProofs [Cells.Holds, Int.add_assoc] at hargs
  refine ⟨?_, ?_, ?_, ?_⟩ <;>
    simp -implicitDefEqProofs [directSave, trampolineSave, exec1, hsp, hargs, Int.sub_eq_add_neg,
      Int.add_assoc]

/-- `lazy_ctx_clone` does not touch `x22`, also where it calls `lfi_clone`. -/
theorem x22_lazyCtxClone (clone : HostFn) (hsp : s.sp = .ptr (.stack s.thread) k) :
    (lazyCtxClone clone s).x 22 = s.x 22 := by
  rw [lazyCtxClone]
  let s₁ := exec [.ldr (.x 13) (.x 20) 0] s
  have hload : s₁.x 22 = s.x 22 := x_exec (by decide) s
  split
  · let s₂ := exec [.bl .trampolineClone] s₁
    obtain ⟨-, -, -, -, hsaved, -⟩ := trampolineClone_spec (s := s₂) clone hsp
    let s₃ := trampolineClone clone s₂
    calc (exec [.ldr (.x 13) (.x 20) 0] s₃).x 22 = s₃.x 22 := x_exec (by decide) s₃
      _ = s₂.x 22 := hsaved 22 (by decide)
      _ = s₁.x 22 := x_exec (by decide) s₁
      _ = s.x 22 := hload
  · exact hload

/-- It jumps to the address of the pointer to the context. -/
theorem pc_lfiTrampolineDirect (b : Build) (clone : HostFn) (h : DirectCall i s) :
    (lfiTrampolineDirect b clone s).pc = .undef := by
  obtain ⟨k, nStack, hsp, hholds, -⟩ := h.call
  obtain ⟨hsp₁, hx22, -⟩ := directSave_spec hsp hholds
  have hundef : ∀ w : W, Word.add .undef w = .undef := by
    intro w
    cases w <;> rfl
  rw [lfiTrampolineDirect_eq, pc_lfiTrampolineCommon, x22_lazyCtxClone clone hsp₁, hx22]
  exact hundef _

/-- The three calls of one invocation. -/
structure Calls (b : Build) (i : Passed) (s₁ s₂ s₃ : State) : Prop where
  plain : PlainCall b i s₁
  withStruct : StructCall b i s₂
  direct : DirectCall i s₃

/-- The sandbox is entered in the same way. -/
structure Agree (b : Build) (clone : HostFn) (s₁ s₂ s₃ : State) : Prop where
  withStruct : arrival (lfiTrampolineStruct b clone s₂) = arrival (lfiTrampoline b clone s₁)
  direct : arrival (lfiTrampolineDirect b clone s₃) = arrival (lfiTrampoline b clone s₁)

variable {s₁ s₂ s₃ : State}

theorem withStruct_agrees (clone : HostFn) (h : Calls b i s₁ s₂ s₃) :
    arrival (lfiTrampolineStruct b clone s₂) = arrival (lfiTrampoline b clone s₁) := by
  rw [arrival_struct clone h.withStruct, arrival_plain clone h.plain]

theorem direct_disagrees (clone : HostFn) (h : Calls b i s₁ s₂ s₃) :
    ¬Agree b clone s₁ s₂ s₃ := by
  intro hagree
  have hsame := hagree.direct.trans (arrival_plain clone h.plain)
  have hpc : Word.undef = (expected i).pc :=
    (pc_lfiTrampolineDirect b clone h.direct).symm.trans (congrArg Arrival.pc hsame)
  simp [expected, Word.add] at hpc

end LfiRuntime.Arm64
