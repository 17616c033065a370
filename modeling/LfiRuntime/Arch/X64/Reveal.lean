import LfiRuntime.Arch.X64.LazyClone
import LfiRuntime.Arch.X64.RuntimeCall

/-!
What the sandbox can read of the machine when it starts or goes on, as a
function of its context and of what it is passed.
-/

namespace LfiRuntime.X64

open LfiRuntime.BlockMemory
open LfiRuntime.Layout
open LfiRuntime.Moves

variable {b : Build} {s t u v : State} {c : Nat} {k : Int} {blk : Block} {o : Int}

/-- The sandbox reads the same from both states. -/
structure SameView (s t : State) : Prop where
  reg : ∀ r, t.reg r = s.reg r
  xmm : ∀ i, t.xmm i = s.xmm i
  flags : t.flags = s.flags
  df : t.df = s.df
  fcw : t.fcw = s.fcw
  mxcsr : t.mxcsr = s.mxcsr

/-- Two states with the same context, the host stack pointer and the cache of
the segment base in it apart. -/
def SameCtx (c : Nat) (s t : State) : Prop :=
  ∀ o, o ≠ REGS_HOST_SP → o ≠ CTX_GS_CACHE → t.mem (.ptr (.ctx c) o) = s.mem (.ptr (.ctx c) o)

/-! Invocations. -/

def zeroedRegs : List Reg := [.rax, .rbx, .rbp, .r10, .r12, .r13]

theorem zeroRegs_zero (s : State) :
    (∀ r ∈ zeroedRegs, (exec zeroRegs s).reg r = .int 0) ∧
      (∀ i ∉ xmmArgs, (exec zeroRegs s).xmm i = (.int 0, .int 0)) ∧
      (exec zeroRegs s).flags = .logic (.int 0) := by
  refine ⟨?_, ?_, rfl⟩
  · intro r hr
    fin_cases hr <;> rfl
  · intro i hi
    fin_cases i <;> first | rfl | exact absurd (by decide) hi

theorem loadFp_load (ctx : Reg) (hso : b.storesOnly = false) (s : State) :
    (loadFp b ctx s).fcw = s.mem (s.ea REGS_FCW ctx) ∧
      (loadFp b ctx s).mxcsr = s.mem (s.ea REGS_MXCSR ctx) := by
  unfold loadFp
  rw [hso]
  exact ⟨rfl, rfl⟩

theorem commonPku_fp (b : Build) (s : State) :
    (commonPku b s).fcw = s.fcw ∧ (commonPku b s).mxcsr = s.mxcsr := by
  unfold commonPku
  cases b.pku with
  | false => exact ⟨rfl, rfl⟩
  | true => exact pkuBoxAccess_fp b _

/-- The registers at the first instruction of the sandbox that are not its
arguments. -/
theorem commonEnter_view {c : Block} (hso : b.storesOnly = false) (hctx : s.reg .r11 = .ptr c 0)
    (hp : s.reg .r13 = .ptr blk o) (hslot : s.mem (.ptr blk o) = .ptr c 0)
    (hgs : ¬GsCell b s c (.ptr blk o))
    (hgsc : ∀ i ∈ [REGS_FCW, REGS_MXCSR], ¬GsCell b s c (.ptr c i)) :
    let t := commonEnter b s
    (∀ r ∈ zeroedRegs, t.reg r = .int 0) ∧ (∀ i ∉ xmmArgs, t.xmm i = (.int 0, .int 0)) ∧
      t.reg .r11 = (s.reg .r14).add ((s.reg .r12).map (low32 (· &&& 0xffffffe0))) ∧
      t.flags = .logic (.int 0) ∧ t.fcw = s.mem (.ptr c REGS_FCW) ∧
      t.mxcsr = s.mem (.ptr c REGS_MXCSR) := by
  obtain ⟨hreg₁, -, -, -⟩ := commonSegue_regs b s
  let s₁ := commonSegue b s
  let s₂ := exec commonLoad s₁
  obtain ⟨hreg₃, -, -, -, -⟩ := loadFp_spec b .r13 s₂
  obtain ⟨hfcw₃, hmxcsr₃⟩ := loadFp_load .r13 hso s₂
  let s₃ := loadFp b .r13 s₂
  obtain ⟨-, hreg₄, -, -, -⟩ := commonPku_spec b s₃
  obtain ⟨hfcw₄, hmxcsr₄⟩ := commonPku_fp b s₃
  let s₄ := commonPku b s₃
  let s₅ := exec commonTarget s₄
  obtain ⟨hzero, hzeroXmm, hflags⟩ := zeroRegs_zero s₅
  have henter : commonEnter b s = exec [.jmp .r11] (exec zeroRegs s₅) := by
    simp only [commonEnter, hso]
    rfl
  have hr13 : s₂.reg .r13 = .ptr c 0 := by
    have hcell : s₁.mem (.ptr blk o) = .ptr c 0 := by
      rw [← hslot]
      exact commonSegue_mem hctx hgs
    have hptr : s₁.reg .r13 = .ptr blk o := (hreg₁ _ (by decide)).trans hp
    simp -implicitDefEqProofs [s₂, commonLoad, exec1, State.ea, hptr, hcell]
  have hcells : ∀ i ∈ [REGS_FCW, REGS_MXCSR], s₂.mem (s₂.ea i .r13) = s.mem (.ptr c i) := by
    intro i hi
    rw [State.ea, hr13, Word.offset_ptr, Int.zero_add, ← commonSegue_mem hctx (hgsc i hi)]
    exact congrFun (mem_exec (by decide) s₁) _
  have hkept : ∀ r ∈ [Reg.r12, .r14], s₄.reg r = s.reg r := by
    intro r hr
    calc s₄.reg r = s₃.reg r := hreg₄ r (by revert r; decide)
      _ = s₂.reg r := congrFun hreg₃ r
      _ = s₁.reg r := reg_exec (by revert r; decide) s₁
      _ = s.reg r := hreg₁ r (by revert r; decide)
  rw [henter]
  refine ⟨hzero, hzeroXmm, ?_, hflags, ?_, ?_⟩
  · rw [← hkept .r14 (by decide), ← hkept .r12 (by decide)]
    rfl
  · exact hfcw₄.trans (hfcw₃.trans (hcells _ (by decide)))
  · exact hmxcsr₄.trans (hmxcsr₃.trans (hcells _ (by decide)))

/-- A trampoline that has its context at hand. -/
structure Ready (b : Build) (c : Nat) (j : Int) (u : State) : Prop where
  rsp : u.reg .rsp = .ptr (.stack u.thread) j
  r11 : u.reg .r11 = .ptr (.ctx c) 0
  rbx : b.segueCacheGs = true → u.reg .rbx = (invokeInfo b u.thread).offset INVOKE_GS_BASE
  df : u.df = false
  slot : ∃ blk o, u.reg .r13 = .ptr blk o ∧ u.mem (.ptr blk o) = .ptr (.ctx c) 0 ∧
    -- a variable outside the context, `lfi_invoke_info` and the free stack
    blk ≠ .ctx c ∧ .ptr blk o ≠ (invokeInfo b u.thread).offset INVOKE_GS_BASE ∧
    OffStack u j (.ptr blk o)

/-- The register file at the first instruction of an invocation. -/
theorem lfiTrampolineCommon_view {j : Int} (hso : b.storesOnly = false) (h : Ready b c j u) :
    let t := lfiTrampolineCommon b u
    SameArgs u t ∧ (∀ r ∈ zeroedRegs, t.reg r = .int 0) ∧
      (∀ i ∉ xmmArgs, t.xmm i = (.int 0, .int 0)) ∧
      t.reg .rsp =
        ((u.mem (.ptr (.ctx c) REGS_RSP)).map (· &&& 0xfffffffffffffff0)).offset (-8) ∧
      t.reg .r11 = (u.mem (.ptr (.ctx c) REGS_BASE)).add
        ((u.reg .r12).map (low32 (· &&& 0xffffffe0))) ∧
      t.reg .r14 = u.mem (.ptr (.ctx c) REGS_BASE) ∧
      t.reg .r15 = u.mem (.ptr (.ctx c) REGS_R15) ∧
      t.flags = .logic (.int 0) ∧ t.df = false ∧
      t.fcw = u.mem (.ptr (.ctx c) REGS_FCW) ∧ t.mxcsr = u.mem (.ptr (.ctx c) REGS_MXCSR) := by
  obtain ⟨blk, o, hr13, hslot, hblk, hinfo, hoff⟩ := h.slot
  obtain ⟨hrsp₁, hr14₁, hreg₁, hthread₁, hdf₁, hxmm₁, hmem₁⟩ :=
    commonSwitch_spec h.rsp h.r11 (by simp)
  let s₁ := exec commonSwitch u
  have hctx₁ : s₁.reg .r11 = .ptr (.ctx c) 0 := (hreg₁ _ (by decide) (by decide)).trans h.r11
  have hslot₁ : s₁.mem (.ptr blk o) = .ptr (.ctx c) 0 := by
    rw [hmem₁, Cells.set_of_ne, Cells.set_of_ne, hslot]
    · exact hoff _ (by omega)
    · simp [hblk]
  have hrbx₁ : b.segueCacheGs = true →
      s₁.reg .rbx = (invokeInfo b u.thread).offset INVOKE_GS_BASE := by
    intro hcache
    rw [← h.rbx hcache]
    exact hreg₁ _ (by decide) (by decide)
  have hgsInfo : ((invokeInfo b u.thread).offset INVOKE_GS_BASE).offset 0 =
      (invokeInfo b u.thread).offset INVOKE_GS_BASE := by
    simp [invokeInfo]
  have hgs : ¬GsCell b s₁ (.ctx c) (.ptr blk o) := by
    rintro ⟨hcache, heq | heq⟩
    · exact hblk (Word.ptr.inj heq).1
    · rw [hrbx₁ hcache, hgsInfo] at heq
      exact hinfo heq
  have hgsc : ∀ i, i ≠ CTX_GS_CACHE → ¬GsCell b s₁ (.ctx c) (.ptr (.ctx c) i) := by
    rintro i hi ⟨hcache, heq | heq⟩
    · exact hi (Word.ptr.inj heq).2
    · rw [hrbx₁ hcache, hgsInfo] at heq
      simp [invokeInfo] at heq
  obtain ⟨-, hdf, hr14, hr15, hrsp, -⟩ := commonEnter_spec hctx₁
    ((hreg₁ _ (by decide) (by decide)).trans hr13) hslot₁ hgs (hgsc _ (by decide))
  obtain ⟨hzero, hzeroXmm, hr11, hflags, hfcw, hmxcsr⟩ := commonEnter_view hso hctx₁
    ((hreg₁ _ (by decide) (by decide)).trans hr13) hslot₁ hgs
    fun i hi => hgsc i (by revert i; decide)
  have hcell : ∀ i, i ≠ REGS_HOST_SP → s₁.mem (.ptr (.ctx c) i) = u.mem (.ptr (.ctx c) i) := by
    intro i hi
    simp [s₁, hmem₁, Cells.set_apply, hi]
  have hargs : SameArgs u s₁ := sameArgs_exec (by decide) (by decide) u
  refine ⟨hargs.trans commonEnter_args, hzero, hzeroXmm, ?_, ?_, ?_, ?_, hflags, ?_, ?_, ?_⟩
  · exact hrsp.trans (by rw [hrsp₁])
  · exact hr11.trans (by rw [hr14₁, hreg₁ .r12 (by decide) (by decide)])
  · exact hr14.trans hr14₁
  · exact hr15.trans (hcell _ (by decide))
  · exact hdf.trans (hdf₁.trans h.df)
  · exact hfcw.trans (hcell _ (by decide))
  · exact hmxcsr.trans (hcell _ (by decide))

theorem reg_cases (r : Reg) :
    r ∈ intArgs ∨ r ∈ zeroedRegs ∨ r = .rsp ∨ r = .r11 ∨ r = .r14 ∨ r = .r15 := by
  revert r
  decide

/-- Two invocations on the same context, for the same function with the same
arguments. -/
theorem lfiTrampolineCommon_sameView {j j' : Int} (hso : b.storesOnly = false)
    (hu : Ready b c j u) (hv : Ready b c j' v) (hctx : SameCtx c u v) (hargs : SameArgs u v)
    (htarget : v.reg .r12 = u.reg .r12) :
    SameView (lfiTrampolineCommon b u) (lfiTrampolineCommon b v) := by
  obtain ⟨hargs₁, hzero₁, hxmm₁, hrsp₁, hr11₁, hr14₁, hr15₁, hflags₁, hdf₁, hfcw₁, hmxcsr₁⟩ :=
    lfiTrampolineCommon_view hso hu
  obtain ⟨hargs₂, hzero₂, hxmm₂, hrsp₂, hr11₂, hr14₂, hr15₂, hflags₂, hdf₂, hfcw₂, hmxcsr₂⟩ :=
    lfiTrampolineCommon_view hso hv
  have hcell : ∀ i ∈ [REGS_RSP, REGS_BASE, REGS_R15, REGS_FCW, REGS_MXCSR],
      v.mem (.ptr (.ctx c) i) = u.mem (.ptr (.ctx c) i) :=
    fun i hi => hctx i (by revert i; decide) (by revert i; decide)
  refine ⟨?_, ?_, ?_, ?_, ?_, ?_⟩
  · intro r
    rcases reg_cases r with hr | hr | rfl | rfl | rfl | rfl
    · rw [hargs₂.reg r hr, hargs₁.reg r hr, hargs.reg r hr]
    · rw [hzero₂ r hr, hzero₁ r hr]
    · rw [hrsp₂, hrsp₁, hcell _ (by decide)]
    · rw [hr11₂, hr11₁, hcell _ (by decide), htarget]
    · rw [hr14₂, hr14₁, hcell _ (by decide)]
    · rw [hr15₂, hr15₁, hcell _ (by decide)]
  · intro i
    by_cases hi : i ∈ xmmArgs
    · rw [hargs₂.xmm i hi, hargs₁.xmm i hi, hargs.xmm i hi]
    · rw [hxmm₂ i hi, hxmm₁ i hi]
  · rw [hflags₂, hflags₁]
  · rw [hdf₂, hdf₁]
  · rw [hfcw₂, hfcw₁, hcell _ (by decide)]
  · rw [hmxcsr₂, hmxcsr₁, hcell _ (by decide)]

/-- The registers that the slow path has no business with. -/
theorem trampolineClone_kept (clone : HostFn) (hsp : s.reg .rsp = .ptr (.stack s.thread) k)
    (hdf : s.df = false) :
    let t := trampolineClone clone s
    t.thread = s.thread ∧ t.df = false ∧ t.reg .r11 = s.reg .r11 ∧
      ∀ r ∈ calleeSaved, t.reg r = s.reg r := by
  obtain ⟨hrsp, hthread, hsaved⟩ := trampolineCloneSave_spec hsp
  let s₁ := trampolineCloneSave s
  have hret := clone.returns s₁
  rw [← hthread] at hrsp
  have hout := clone.rsp_run hrsp
  have hkept := clone.mem_run hrsp
  let s₂ := clone.run s₁
  have hsaved₂ : s₂.mem.Holds (.ptr (.stack s.thread) (k - 200)) (cloneSaved s) := by
    refine hsaved.congr fun i hi => ?_
    rw [← hthread]
    exact hkept i (by omega)
  have hr11 : s₂.mem (.ptr (.stack s.thread) (k - 72)) = s.reg .r11 := by
    simp only [cloneSaved, Cells.Holds, Word.offset_ptr, Int.sub_eq_add_neg, Int.add_assoc,
      Int.reduceNeg, Int.reduceAdd] at hsaved₂
    rw [Int.sub_eq_add_neg]
    tauto
  refine ⟨hret.thread.trans hthread, hret.df ?_, ?_, ?_⟩
  · rw [← hdf]
    rfl
  · rw [← hr11, ← hthread]
    simp -implicitDefEqProofs [trampolineClone, trampolineCloneRestore, popx, exec1, State.top,
      State.drop, hout, Int.sub_eq_add_neg, Int.add_assoc]
    rfl
  · intro r hr
    calc (trampolineClone clone s).reg r = s₂.reg r := by
          fin_cases hr <;> rfl
      _ = s₁.reg r := hret.saved r hr
      _ = s.reg r := by
          fin_cases hr <;> rfl

/-- After `lazy_ctx_clone` the context pointer is loaded, on either path. -/
theorem lazyCtxClone_kept (clone : HostFn) (hsp : s.reg .rsp = .ptr (.stack s.thread) k)
    (hp : s.reg .r11 = .ptr blk o) (hdf : s.df = false) :
    let t := lazyCtxClone clone s
    t.reg .rsp = s.reg .rsp ∧ t.thread = s.thread ∧ t.df = false ∧
      t.reg .r11 = t.mem (.ptr blk o) ∧ ∀ r ∈ calleeSaved, t.reg r = s.reg r := by
  by_cases hnull : s.mem (.ptr blk o) = .int 0
  · let s₁ := exec [.cmpMemImm 0 0 .r11, .call .trampolineClone] s
    have hcall : s₁.reg .rsp = .ptr (.stack s₁.thread) (k - 8) := by
      simp [s₁, exec1, State.push, hsp, Int.sub_eq_add_neg]
    obtain ⟨hthread, hdf', hr11, hkept⟩ := trampolineClone_kept clone hcall hdf
    have hrsp := rsp_call_trampolineClone (s := exec [.cmpMemImm 0 0 .r11] s) clone hsp
    let s₂ := trampolineClone clone s₁
    have hslow : lazyCtxClone clone s = exec [.load 0 .r11 .r11] s₂ := by
      simp [lazyCtxClone, s₂, s₁, exec1, State.ea, hp, hnull, Flags.zf]
    have hvar : s₂.reg .r11 = .ptr blk o := hr11.trans hp
    rw [hslow]
    refine ⟨hrsp, hthread, hdf', ?_, ?_⟩
    · simp [exec1, State.ea, hvar]
    · intro r hr
      calc _ = s₂.reg r := reg_exec (by revert r; decide) s₂
        _ = s₁.reg r := hkept r hr
        _ = s.reg r := reg_exec (by revert r; decide) s
  · obtain ⟨hmem, hthread, hdf', hr11, hreg, -⟩ := lazyCtxClone_of_ne clone hp hnull
    refine ⟨hreg _ (by decide), hthread, hdf'.trans hdf, ?_, ?_⟩
    · rw [hr11, hmem]
    · intro r hr
      exact hreg r (by revert r; decide)

/-- The variable that holds the context pointer. -/
def ctxVar (b : Build) (s : State) : W := s.mem ((invokeInfo b s.thread).offset INVOKE_CTX)

/-- A trampoline after `lazy_ctx_clone`. -/
def withCtx (b : Build) (clone : HostFn) (s : State) : State :=
  lazyCtxClone clone (trampolineEntry b s)

/-- A call of a trampoline, which has the context `c` at hand after
`lazy_ctx_clone`. -/
structure Invoking (b : Build) (c : Nat) (clone : HostFn) (s : State) : Prop where
  call : ∃ k blk o, Invoked b s k blk o ∧ blk ≠ .ctx c ∧
    .ptr blk o ≠ (invokeInfo b s.thread).offset INVOKE_GS_BASE
  df : s.df = false
  ctx : (withCtx b clone s).mem (ctxVar b s) = .ptr (.ctx c) 0

/-- Two calls of the same function with the same arguments, on contexts that
look the same to the sandbox. -/
structure SameCall (b : Build) (c : Nat) (f g : HostFn) (s t : State) : Prop where
  args : SameArgs s t
  target : t.mem ((invokeInfo b t.thread).offset INVOKE_TARGETFN) =
    s.mem ((invokeInfo b s.thread).offset INVOKE_TARGETFN)
  fresh : s.mem (ctxVar b s) = .int 0 ↔ t.mem (ctxVar b t) = .int 0
  ctx : SameCtx c (withCtx b f s) (withCtx b g t)

theorem Invoking.ready {clone : HostFn} (h : Invoking b c clone s) :
    ∃ j, Ready b c j (withCtx b clone s) := by
  obtain ⟨k, blk, o, hcall, hblk, hinfo⟩ := h.call
  obtain ⟨hstack, hr11, hr13, hrbx, -⟩ := trampolineEntry_spec hcall
  have hrsp := hstack.rsp
  rw [← hstack.thread] at hrsp
  obtain ⟨hrsp', hthread, hdf, hload, hkept⟩ :=
    lazyCtxClone_kept clone hrsp hr11 (hstack.df h.df)
  have hthread' : (withCtx b clone s).thread = s.thread := hthread.trans hstack.thread
  have hslot : (withCtx b clone s).mem (.ptr blk o) = .ptr (.ctx c) 0 := by
    rw [← hcall.ctxp]
    exact h.ctx
  refine ⟨k - 56, ?_, hload.trans hslot, ?_, hdf, blk, o, ?_, hslot, hblk, ?_, ?_⟩
  · rw [hthread', ← hstack.rsp]
    exact hrsp'
  · intro hcache
    rw [hthread', ← hrbx hcache]
    exact hkept _ (by decide)
  · exact (hkept _ (by decide)).trans hr13
  · rwa [hthread']
  · intro i hi
    rw [hthread']
    exact hcall.above i (by omega)

theorem Invoking.target {clone : HostFn} (h : Invoking b c clone s) :
    (withCtx b clone s).reg .r12 = s.mem ((invokeInfo b s.thread).offset INVOKE_TARGETFN) := by
  obtain ⟨k, blk, o, hcall, -⟩ := h.call
  obtain ⟨hstack, hr11, -⟩ := trampolineEntry_spec hcall
  have hrsp := hstack.rsp
  rw [← hstack.thread] at hrsp
  obtain ⟨-, -, -, -, hkept⟩ := lazyCtxClone_kept clone hrsp hr11 (hstack.df h.df)
  rw [← trampolineEntry_target hcall]
  exact hkept _ (by decide)

/-- The arguments of a call after `lazy_ctx_clone`, which may have reversed the
vector registers. -/
theorem Invoking.args {clone : HostFn} (h : Invoking b c clone s) :
    (s.mem (ctxVar b s) ≠ .int 0 → SameArgs s (withCtx b clone s)) ∧
      (s.mem (ctxVar b s) = .int 0 → ReversedArgs s (withCtx b clone s)) := by
  obtain ⟨k, blk, o, hcall, -⟩ := h.call
  obtain ⟨hstack, hr11, -, -, hargs, -⟩ := trampolineEntry_spec hcall
  have hvar : ctxVar b s = .ptr blk o := hcall.ctxp
  have hmem := hstack.mem _ hcall.above
  rw [hvar, ← hmem]
  constructor
  · intro hset
    obtain ⟨-, -, -, -, -, hfast⟩ := lazyCtxClone_of_ne clone hr11 hset
    exact hargs.trans hfast
  · intro hnull
    have hrsp := hstack.rsp
    rw [← hstack.thread] at hrsp
    have hslow := lazyCtxClone_of_null clone hrsp hr11 hnull
    constructor
    · intro r hr
      rw [← hargs.reg r hr]
      exact hslow.reg r hr
    · intro i hi
      rw [← hargs.xmm (7 - i) (by revert i; decide)]
      exact hslow.xmm i hi

theorem SameCall.withCtx_args {f g : HostFn} (h : SameCall b c f g s t)
    (hs : Invoking b c f s) (ht : Invoking b c g t) :
    SameArgs (withCtx b f s) (withCtx b g t) := by
  obtain ⟨hfast, hslow⟩ := hs.args
  obtain ⟨hfast', hslow'⟩ := ht.args
  by_cases hnull : s.mem (ctxVar b s) = .int 0
  · have hrev := hslow hnull
    have hrev' := hslow' (h.fresh.mp hnull)
    constructor
    · intro r hr
      rw [hrev'.reg r hr, hrev.reg r hr, h.args.reg r hr]
    · intro i hi
      rw [hrev'.xmm i hi, hrev.xmm i hi, h.args.xmm (7 - i) (by revert i; decide)]
  · have hsame := hfast hnull
    have hsame' := hfast' fun heq => hnull (h.fresh.mpr heq)
    constructor
    · intro r hr
      rw [hsame'.reg r hr, hsame.reg r hr, h.args.reg r hr]
    · intro i hi
      rw [hsame'.xmm i hi, hsame.xmm i hi, h.args.xmm i hi]

theorem lfiTrampoline_sameView {f g : HostFn} (hso : b.storesOnly = false)
    (hs : Invoking b c f s) (ht : Invoking b c g t) (h : SameCall b c f g s t) :
    SameView (lfiTrampoline b f s) (lfiTrampoline b g t) := by
  obtain ⟨j, hu⟩ := hs.ready
  obtain ⟨j', hv⟩ := ht.ready
  apply lfiTrampolineCommon_sameView hso hu hv h.ctx (h.withCtx_args hs ht)
  rw [hs.target, ht.target, h.target]

/-- What the sandbox is made from: the cells of its context. -/
def InCtx : Place → Prop
  | .cell o => o ≠ REGS_HOST_SP ∧ o ≠ CTX_GS_CACHE
  | _ => False

instance : DecidablePred InCtx
  | .cell _ => inferInstanceAs (Decidable (_ ∧ _))
  | .reg _ | .lo _ | .hi _ | .fcw | .mxcsr => inferInstanceAs (Decidable False)

theorem SameCtx.val (h : SameCtx c u v) : ∀ p, InCtx p → v.val (.ctx c) p = u.val (.ctx c) p
  | .cell o, hp => h o hp.1 hp.2

theorem loadStructArgs_sameArgs (hu : u.reg .r11 = .ptr (.ctx c) 0)
    (hv : v.reg .r11 = .ptr (.ctx c) 0) (hctx : SameCtx c u v) :
    SameArgs (exec loadStructArgs u) (exec loadStructArgs v) := by
  have hval : ∀ p, From InCtx .r11 loadStructArgs p →
      (exec loadStructArgs v).val (.ctx c) p = (exec loadStructArgs u).val (.ctx c) p :=
    fun p hp => val_congr hu hv hp hctx.val
  constructor
  · intro r hr
    exact hval (.reg r) (by revert r; decide)
  · intro i hi
    apply Prod.ext
    · exact hval (.lo i) (by revert i; decide)
    · exact hval (.hi i) (by revert i; decide)

theorem Ready.loadStructArgs {j : Int} (h : Ready b c j u) :
    Ready b c j (exec loadStructArgs u) := by
  have hreg : ∀ r ∈ [Reg.rsp, .r11, .rbx, .r13], (exec X64.loadStructArgs u).reg r = u.reg r := by
    intro r hr
    exact reg_exec (by revert r; decide) u
  have hmem : (exec X64.loadStructArgs u).mem = u.mem := mem_exec (by decide) u
  have hthread : (exec X64.loadStructArgs u).thread = u.thread := thread_exec _ u
  obtain ⟨blk, o, hr13, hslot, hblk, hinfo, hoff⟩ := h.slot
  refine ⟨?_, ?_, ?_, h.df, blk, o, ?_, ?_, hblk, ?_, ?_⟩
  · rw [hreg _ (by decide), hthread, h.rsp]
  · rw [hreg _ (by decide), h.r11]
  · intro hcache
    rw [hreg _ (by decide), hthread, h.rbx hcache]
  · rw [hreg _ (by decide), hr13]
  · rw [hmem, hslot]
  · rwa [hthread]
  · intro i hi
    rw [hthread]
    exact hoff i hi

theorem lfiTrampolineStruct_sameView {f g : HostFn} (hso : b.storesOnly = false)
    (hs : Invoking b c f s) (ht : Invoking b c g t) (h : SameCall b c f g s t) :
    SameView (lfiTrampolineStruct b f s) (lfiTrampolineStruct b g t) := by
  obtain ⟨j, hu⟩ := hs.ready
  obtain ⟨j', hv⟩ := ht.ready
  apply lfiTrampolineCommon_sameView hso hu.loadStructArgs hv.loadStructArgs
  · intro o hhost hcache
    rw [mem_exec (by decide), mem_exec (by decide)]
    exact h.ctx o hhost hcache
  · exact loadStructArgs_sameArgs hu.r11 hv.r11 h.ctx
  · rw [reg_exec (by decide), reg_exec (by decide)]
    calc _ = _ := ht.target
      _ = _ := h.target
      _ = _ := hs.target.symm

end LfiRuntime.X64
