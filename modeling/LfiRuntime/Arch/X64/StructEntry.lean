import LfiRuntime.Arch.X64.Enter

/-!
The argument registers, the stack and the memory of the sandbox where
`lfi_trampoline_struct` enters it.
-/

namespace LfiRuntime.X64

open LfiRuntime.BlockMemory
open LfiRuntime.Layout

/-- Where a context keeps what goes to `intArgs`, and to the low lanes of `xmmArgs`. -/
def intArgCells : List Int := [REGS_RDI, REGS_RSI, REGS_RDX, REGS_RCX, REGS_R8, REGS_R9]

def xmmArgCells : List Int := (List.range 8).map REGS_XMM

variable {b : Build} {s : State} {k : Int} {blk : Block} {o : Int} {c : Nat} {sp a : BitVec 64}

theorem loadStructArgs_spec (hctx : s.reg .r11 = .ptr (.ctx c) 0) :
    let t := exec loadStructArgs s
    intArgs.map t.reg = intArgCells.map (fun i => s.mem (.ptr (.ctx c) i)) ∧
      (xmmArgs.map fun i => (t.xmm i).1) = xmmArgCells.map (fun i => s.mem (.ptr (.ctx c) i)) := by
  constructor <;>
    simp -implicitDefEqProofs [loadStructArgs, exec1, State.ea, hctx, intArgs, xmmArgs, intArgCells,
      xmmArgCells, List.range_succ]

theorem SameArgs.ints {t : State} (h : SameArgs s t) : intArgs.map t.reg = intArgs.map s.reg :=
  List.map_congr_left h.reg

theorem SameArgs.floats {t : State} (h : SameArgs s t) :
    (xmmArgs.map fun i => (t.xmm i).1) = xmmArgs.map fun i => (s.xmm i).1 :=
  List.map_congr_left fun i hi => congrArg Prod.fst (h.xmm i hi)

/-- The return address goes below the aligned stack pointer. The rest of the
memory that numbers name stays. -/
theorem commonEnter_mem_int {d : Block} (hctx : s.reg .r11 = .ptr d 0)
    (hret : ¬GsCell b s d (.ptr d REGS_RETADDR)) (ha : ¬GsCell b s d (.int a)) :
    (commonEnter b s).mem (.int a) =
      if .int a = ((s.reg .rsp).map (· &&& 0xfffffffffffffff0)).offset (-8) then
        s.mem (.ptr d REGS_RETADDR)
      else s.mem (.int a) := by
  obtain ⟨hreg₁, -, -, -⟩ := commonSegue_regs b s
  let s₁ := commonSegue b s
  let s₂ := exec commonLoad s₁
  obtain ⟨hreg₃, -, hmem₃, -, -⟩ := loadFp_spec b .r13 s₂
  let s₃ := loadFp b .r13 s₂
  obtain ⟨-, hreg₄, hmem₄, -, -⟩ := commonPku_spec b s₃
  let s₄ := commonPku b s₃
  obtain ⟨-, hmem₆, -⟩ := zeroRegs_spec b (exec commonTarget s₄)
  have hreg : ∀ r, r ∉ [Reg.rax, .rbx, .rbp] → s₄.reg r = s₂.reg r := by
    intro r hr
    rw [show s₄.reg r = s₃.reg r from hreg₄ r hr]
    exact congrFun hreg₃ r
  have hrsp : s₄.reg .rsp = (s.reg .rsp).map (· &&& 0xfffffffffffffff0) := by
    rw [hreg .rsp (by decide)]
    simp -implicitDefEqProofs [s₂, commonLoad, exec1, s₁, hreg₁]
  have hr11 : s₄.reg .r11 = s.mem (.ptr d REGS_RETADDR) := by
    rw [hreg .r11 (by decide), ← commonSegue_mem hctx hret]
    have hr11₁ : s₁.reg .r11 = .ptr d 0 := by
      rw [← hctx]
      exact hreg₁ _ (by decide)
    simp -implicitDefEqProofs [s₂, commonLoad, exec1, State.ea, hr11₁]
    rfl
  have hmem₅ : s₄.mem (.int a) = s.mem (.int a) := by
    calc s₄.mem (.int a) = s₂.mem (.int a) := congrFun (hmem₄.trans hmem₃) _
      _ = s₁.mem (.int a) := congrFun (mem_exec (by decide) s₁) _
      _ = s.mem (.int a) := commonSegue_mem hctx ha
  calc (commonEnter b s).mem (.int a) = (exec commonTarget s₄).mem (.int a) := congrFun hmem₆ _
    _ = (s₄.mem.set ((s₄.reg .rsp).offset (-8)) (s₄.reg .r11)) (.int a) := by
        simp -implicitDefEqProofs [commonTarget, exec1, State.push]
    _ = _ := by rw [Cells.set_apply, hrsp, hr11, hmem₅]

theorem commonEnter_pc (b : Build) (s : State) :
    (commonEnter b s).pc =
      (s.reg .r14).add ((s.reg .r12).map (low32 (· &&& 0xffffffe0))) := by
  obtain ⟨hreg₁, -, -, -⟩ := commonSegue_regs b s
  let s₁ := commonSegue b s
  let s₂ := exec commonLoad s₁
  obtain ⟨hreg₃, -, -, -, -⟩ := loadFp_spec b .r13 s₂
  let s₃ := loadFp b .r13 s₂
  obtain ⟨-, hreg₄, -, -, -⟩ := commonPku_spec b s₃
  let s₄ := commonPku b s₃
  obtain ⟨-, -, -, -, hreg₆⟩ := zeroRegs_spec b (exec commonTarget s₄)
  have hkept : ∀ r ∈ [Reg.r12, .r14], s₄.reg r = s.reg r := by
    intro r hr
    calc s₄.reg r = s₃.reg r := hreg₄ r (by revert r; decide)
      _ = s₂.reg r := congrFun hreg₃ r
      _ = s₁.reg r := reg_exec (by revert r; decide) s₁
      _ = s.reg r := hreg₁ r (by revert r; decide)
  rw [← hkept .r14 (by decide), ← hkept .r12 (by decide)]
  exact hreg₆ .r11 (by decide)

/-- A trampoline that has its context at hand. -/
structure AtCommon (b : Build) (c : Nat) (j : Int) (u : State) : Prop where
  rsp : u.reg .rsp = .ptr (.stack u.thread) j
  r11 : u.reg .r11 = .ptr (.ctx c) 0
  rbx : b.segueCacheGs = true → u.reg .rbx = (invokeInfo b u.thread).offset INVOKE_GS_BASE
  slot : ∃ blk o, u.reg .r13 = .ptr blk o ∧ u.mem (.ptr blk o) = .ptr (.ctx c) 0 ∧
    -- a variable outside the context, `lfi_invoke_info` and the free stack
    blk ≠ .ctx c ∧ .ptr blk o ≠ (invokeInfo b u.thread).offset INVOKE_GS_BASE ∧
    OffStack u j (.ptr blk o)

/-- The sandbox has been entered in `t`. -/
structure AtEntry (c : Nat) (sp : BitVec 64) (u t : State) : Prop where
  args : SameArgs u t
  rsp : t.reg .rsp = .int ((sp &&& 0xfffffffffffffff0) - 8)
  base : t.reg .r14 = u.mem (.ptr (.ctx c) REGS_BASE)
  ctxReg : t.reg .r15 = u.mem (.ptr (.ctx c) REGS_R15)
  pc : t.pc = (u.mem (.ptr (.ctx c) REGS_BASE)).add
    ((u.reg .r12).map (low32 (· &&& 0xffffffe0)))
  mem : ∀ a, t.mem (.int a) =
    if a = (sp &&& 0xfffffffffffffff0) - 8 then u.mem (.ptr (.ctx c) REGS_RETADDR)
    else u.mem (.int a)

variable {j : Int} {t u : State}

theorem lfiTrampolineCommon_entry (h : AtCommon b c j u)
    (hsp : u.mem (.ptr (.ctx c) REGS_RSP) = .int sp) :
    AtEntry c sp u (lfiTrampolineCommon b u) := by
  obtain ⟨blk, o, hr13, hslot, hblk, hinfo, hoff⟩ := h.slot
  obtain ⟨hrsp₁, hr14₁, hreg₁, -, -, -, hmem₁⟩ := commonSwitch_spec h.rsp h.r11 (by simp)
  let s₁ := exec commonSwitch u
  have hctx : s₁.reg .r11 = .ptr (.ctx c) 0 := (hreg₁ _ (by decide) (by decide)).trans h.r11
  have hcell : ∀ i, i ≠ REGS_HOST_SP → s₁.mem (.ptr (.ctx c) i) = u.mem (.ptr (.ctx c) i) := by
    intro i hi
    simp [s₁, hmem₁, Cells.set_apply, hi]
  have hnum : ∀ a, s₁.mem (.int a) = u.mem (.int a) := by
    intro a
    simp [s₁, hmem₁, Cells.set_apply]
  have hgs : ∀ w, w ≠ (invokeInfo b u.thread).offset INVOKE_GS_BASE →
      w ≠ .ptr (.ctx c) CTX_GS_CACHE → ¬GsCell b s₁ (.ctx c) w := by
    rintro w htls hcache ⟨hb, heq | heq⟩
    · exact hcache heq
    · rw [hreg₁ _ (by decide) (by decide), h.rbx hb] at heq
      simp only [invokeInfo, Word.offset_ptr, Int.add_zero] at heq htls
      exact htls heq
  have hslot₁ : s₁.mem (.ptr blk o) = .ptr (.ctx c) 0 := by
    rw [hmem₁, Cells.set_of_ne, Cells.set_of_ne, hslot]
    · exact hoff _ (by omega)
    · simp [hblk]
  have hr13₁ : s₁.reg .r13 = .ptr blk o := (hreg₁ _ (by decide) (by decide)).trans hr13
  have hctxCell : ∀ i, i ≠ CTX_GS_CACHE → ¬GsCell b s₁ (.ctx c) (.ptr (.ctx c) i) :=
    fun i hi => hgs _ (by simp [invokeInfo]) (by simp [hi])
  obtain ⟨-, -, hr14, hr15, hrsp, -⟩ := commonEnter_spec (b := b) hctx hr13₁ hslot₁
    (hgs _ hinfo (by simp [hblk])) (hctxCell _ (by decide))
  have htop : ((s₁.reg .rsp).map (· &&& 0xfffffffffffffff0)).offset (-8) =
      .int ((sp &&& 0xfffffffffffffff0) - 8) := by
    rw [show s₁.reg .rsp = .int sp from hrsp₁.trans hsp]
    simp only [Word.map, Word.offset_int, BitVec.sub_eq_add_neg]
    congr 1
  refine ⟨(sameArgs_exec (by decide) (by decide) u).trans commonEnter_args, hrsp.trans htop,
    hr14.trans hr14₁, hr15.trans (hcell _ (by decide)), ?_, fun a => ?_⟩
  · rw [← hr14₁, ← hreg₁ .r12 (by decide) (by decide)]
    exact commonEnter_pc b s₁
  · have hmem := commonEnter_mem_int (a := a) hctx (hctxCell _ (by decide))
      (hgs _ (by simp [invokeInfo]) (by simp))
    rw [htop, hcell _ (by decide), hnum] at hmem
    simpa [lfiTrampolineCommon] using hmem

/-- A call of a trampoline by `call_ptr`, which has made sure of the context. -/
structure Called (b : Build) (c : Nat) (sp : BitVec 64) (s : State) : Prop where
  call : ∃ k blk o, Invoked b s k blk o ∧ s.mem (.ptr blk o) = .ptr (.ctx c) 0 ∧
    -- a variable outside the context and `lfi_invoke_info`
    blk ≠ .ctx c ∧ .ptr blk o ≠ (invokeInfo b s.thread).offset INVOKE_GS_BASE
  savedSp : s.mem (.ptr (.ctx c) REGS_RSP) = .int sp

/-- A trampoline after `lazy_ctx_clone`, which has found the context. -/
structure Prepared (b : Build) (c : Nat) (s u : State) : Prop where
  atCommon : ∃ j, AtCommon b c j u
  args : SameArgs s u
  target : u.reg .r12 = s.mem ((invokeInfo b s.thread).offset INVOKE_TARGETFN)
  mem : ∀ a, (∀ o, a ≠ .ptr (.stack s.thread) o) → u.mem a = s.mem a

theorem Invoked.atCommon (clone : HostFn) (h : Invoked b s k blk o)
    (hslot : s.mem (.ptr blk o) = .ptr (.ctx c) 0) (hblk : blk ≠ .ctx c)
    (hinfo : .ptr blk o ≠ (invokeInfo b s.thread).offset INVOKE_GS_BASE) :
    let u := lazyCtxClone clone (trampolineEntry b s)
    AtCommon b c (k - 56) u ∧ u.thread = s.thread ∧ SameArgs s u ∧
      u.reg .r12 = s.mem ((invokeInfo b s.thread).offset INVOKE_TARGETFN) ∧
      (∀ a, OffStack s k a → u.mem a = s.mem a) ∧
      u.mem.Holds (.ptr (.stack s.thread) (k - 56))
        [s.reg .rbp, s.reg .rbx, s.reg .r12, s.reg .r13, s.reg .r14, .int 0, s.reg .r15] := by
  obtain ⟨hstack, hr11, hr13, hrbx, hargs, hsaved⟩ := trampolineEntry_spec h
  let s₁ := trampolineEntry b s
  have hslot₁ : s₁.mem (.ptr blk o) = .ptr (.ctx c) 0 := by
    rw [hstack.mem _ h.above, hslot]
  have hne : s₁.mem (.ptr blk o) ≠ .int 0#64 := by simp [hslot₁]
  obtain ⟨hmem₂, hthread₂, -, hr11₂, hreg₂, hargs₂⟩ := lazyCtxClone_of_ne clone hr11 hne
  let s₂ := lazyCtxClone clone s₁
  have hthread : s₂.thread = s.thread := hthread₂.trans hstack.thread
  refine ⟨⟨?_, hr11₂.trans hslot₁, ?_, blk, o, ?_, ?_, hblk, ?_, ?_⟩, hthread,
    hargs.trans hargs₂, ?_, fun a ha => ?_, ?_⟩
  · rw [hthread, ← hstack.rsp]
    exact hreg₂ _ (by decide)
  · intro hb
    rw [hthread, ← hrbx hb]
    exact hreg₂ _ (by decide)
  · rw [← hr13]
    exact hreg₂ _ (by decide)
  · rw [← hslot₁]
    exact congrFun hmem₂ _
  · rw [hthread]
    exact hinfo
  · intro i hi
    rw [hthread]
    exact h.above i (by omega)
  · rw [← trampolineEntry_target h]
    exact hreg₂ _ (by decide)
  · exact (congrFun hmem₂ a).trans (hstack.mem a ha)
  · exact hsaved.congr fun i _ => congrFun hmem₂ _

theorem Called.prepared (clone : HostFn) (h : Called b c sp s) :
    Prepared b c s (lazyCtxClone clone (trampolineEntry b s)) := by
  obtain ⟨k, blk, o, hcall, hslot, hblk, hinfo⟩ := h.call
  obtain ⟨hcommon, -, hargs, htarget, hmem, -⟩ := hcall.atCommon clone hslot hblk hinfo
  exact ⟨⟨k - 56, hcommon⟩, hargs, htarget, fun a ha => hmem a fun o _ => ha o⟩

/-- The struct variant differs from it by the arguments. -/
theorem AtCommon.loadStructArgs (h : AtCommon b c j u) :
    AtCommon b c j (exec loadStructArgs u) := by
  obtain ⟨blk, o, hr13, hslot, hblk, hinfo, hoff⟩ := h.slot
  have hthread : (exec X64.loadStructArgs u).thread = u.thread := thread_exec _ u
  have hmem : (exec X64.loadStructArgs u).mem = u.mem := mem_exec (by decide) u
  refine ⟨?_, ?_, ?_, blk, o, ?_, ?_, hblk, ?_, ?_⟩
  · rw [hthread, ← h.rsp]
    exact reg_exec (by decide) u
  · rw [← h.r11]
    exact reg_exec (by decide) u
  · intro hb
    rw [hthread, ← h.rbx hb]
    exact reg_exec (by decide) u
  · rw [← hr13]
    exact reg_exec (by decide) u
  · rw [hmem, hslot]
  · rwa [hthread]
  · intro i hi
    rw [hthread]
    exact hoff i hi

/-- What the function in the sandbox finds. -/
structure Entered (c : Nat) (sp : BitVec 64) (s t : State) : Prop where
  ints : intArgs.map t.reg = intArgCells.map fun i => s.mem (.ptr (.ctx c) i)
  floats : (xmmArgs.map fun i => (t.xmm i).1) = xmmArgCells.map fun i => s.mem (.ptr (.ctx c) i)
  rsp : t.reg .rsp = .int ((sp &&& 0xfffffffffffffff0) - 8)
  mem : ∀ a, t.mem (.int a) =
    if a = (sp &&& 0xfffffffffffffff0) - 8 then s.mem (.ptr (.ctx c) REGS_RETADDR)
    else s.mem (.int a)

theorem lfiTrampolineStruct_spec (clone : HostFn) (h : Called b c sp s) :
    Entered c sp s (lfiTrampolineStruct b clone s) := by
  obtain ⟨⟨j, hcommon⟩, -, -, hmem⟩ := h.prepared clone
  let u := lazyCtxClone clone (trampolineEntry b s)
  have hmem₁ : ∀ a, (∀ o, a ≠ .ptr (.stack s.thread) o) →
      (exec loadStructArgs u).mem a = s.mem a := by
    intro a ha
    rw [← hmem a ha]
    exact congrFun (mem_exec (by decide) u) a
  obtain ⟨hints, hfloats⟩ := loadStructArgs_spec hcommon.r11
  have hentry := lfiTrampolineCommon_entry hcommon.loadStructArgs
    ((hmem₁ _ (by simp)).trans h.savedSp)
  refine ⟨?_, ?_, hentry.rsp, fun a => ?_⟩
  · refine hentry.args.ints.trans (hints.trans ?_)
    exact List.map_congr_left fun i _ => hmem _ (by simp)
  · refine hentry.args.floats.trans (hfloats.trans ?_)
    exact List.map_congr_left fun i _ => hmem _ (by simp)
  · rw [← hmem₁ (.int a) (by simp), ← hmem₁ (.ptr (.ctx c) REGS_RETADDR) (by simp)]
    exact hentry.mem a

end LfiRuntime.X64
