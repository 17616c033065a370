import LfiRuntime.Arch.Arrival
import LfiRuntime.Arch.X64.StructEntry

/-!
The three trampolines, entered with the same context, target and arguments.
-/

namespace LfiRuntime.X64

open LfiRuntime.BlockMemory
open LfiRuntime.Layout

def arrival (t : State) : Arrival where
  pc := t.pc
  base := t.reg .r14
  ctxReg := t.reg .r15
  retAddr := t.mem (t.reg .rsp)
  sp := t.reg .rsp
  ints := intArgs.map t.reg
  floats := xmmArgs.map fun i => (t.xmm i).1

/-- The entry that all trampolines are for. -/
def expected (i : Passed) : Arrival where
  pc := (Word.int i.base).add ((Word.int i.target).map (low32 (· &&& 0xffffffe0)))
  base := .int i.base
  ctxReg := i.ctxReg
  retAddr := i.retAddr
  sp := .int ((i.sp &&& 0xfffffffffffffff0) - 8)
  ints := i.ints
  floats := i.floats

def Stored (i : Passed) : Mem → Prop := i.Stored REGS_RSP REGS_BASE REGS_R15

/-- A call with `lfi_invoke_info`. -/
structure InvokeCall (b : Build) (i : Passed) (s : State) : Prop where
  call : ∃ k, Invoked b s k i.slot i.off
  info : .ptr i.slot i.off ≠ (invokeInfo b s.thread).offset INVOKE_GS_BASE
  box : s.mem ((invokeInfo b s.thread).offset INVOKE_BOX) = i.box
  target : s.mem ((invokeInfo b s.thread).offset INVOKE_TARGETFN) = .int i.target
  stored : Stored i s.mem

/-- A call of `lfi_trampoline`. -/
structure PlainCall (b : Build) (i : Passed) (s : State) : Prop extends InvokeCall b i s where
  ints : intArgs.map s.reg = i.ints
  floats : (xmmArgs.map fun x => (s.xmm x).1) = i.floats

/-- A call of `lfi_trampoline_struct`. -/
structure StructCall (b : Build) (i : Passed) (s : State) : Prop extends InvokeCall b i s where
  ints : (intArgCells.map fun o => s.mem (.ptr (.ctx i.ctx) o)) = i.ints
  floats : (xmmArgCells.map fun o => s.mem (.ptr (.ctx i.ctx) o)) = i.floats

/-- A call of `lfi_trampoline_direct`. -/
structure DirectCall (b : Build) (i : Passed) (s : State) : Prop where
  call : ∃ k nStack, s.reg .rsp = .ptr (.stack s.thread) k ∧
    s.mem.Holds (.ptr (.stack s.thread) k) [.ptr i.slot i.off, i.box, .int i.target, nStack] ∧
    OffStack s (k + 32) (.ptr i.slot i.off)
  info : .ptr i.slot i.off ≠ (invokeInfo b s.thread).offset INVOKE_GS_BASE
  stored : Stored i s.mem
  ints : intArgs.map s.reg = i.ints
  floats : (xmmArgs.map fun x => (s.xmm x).1) = i.floats

variable {b : Build} {i : Passed} {c : Nat} {s t u : State} {j k : Int}

theorem AtEntry.arrival (h : AtEntry i.ctx i.sp u t) (hstored : ∀ o,
      o ∈ [REGS_BASE, REGS_R15, REGS_RETADDR] →
        u.mem (.ptr (.ctx i.ctx) o) = s.mem (.ptr (.ctx i.ctx) o))
    (hs : Stored i s.mem) (htarget : u.reg .r12 = .int i.target)
    (hints : intArgs.map u.reg = i.ints)
    (hfloats : (xmmArgs.map fun x => (u.xmm x).1) = i.floats) :
    X64.arrival t = expected i := by
  have hbase : u.mem (.ptr (.ctx i.ctx) REGS_BASE) = .int i.base := by
    rw [hstored _ (by simp), hs.base]
  have hret : t.mem (t.reg .rsp) = i.retAddr := by
    rw [h.rsp, h.mem, if_pos rfl, hstored _ (by simp), hs.retAddr]
  simp only [X64.arrival, expected, Arrival.mk.injEq]
  refine ⟨?_, ?_, ?_, hret, h.rsp, h.args.ints.trans hints, h.args.floats.trans hfloats⟩
  · rw [h.pc, hbase, htarget]
  · rw [h.base, hbase]
  · rw [h.ctxReg, hstored _ (by simp), hs.ctxReg]

theorem InvokeCall.called (h : InvokeCall b i s) : Called b i.ctx i.sp s := by
  obtain ⟨k, hcall⟩ := h.call
  exact ⟨⟨k, i.slot, i.off, hcall, h.stored.slot, h.stored.outside, h.info⟩, h.stored.sp⟩

theorem arrival_plain (clone : HostFn) (h : PlainCall b i s) :
    arrival (lfiTrampoline b clone s) = expected i := by
  obtain ⟨⟨j, hcommon⟩, hargs, htarget, hmem⟩ := h.called.prepared clone
  have hentry := lfiTrampolineCommon_entry hcommon ((hmem _ (by simp)).trans h.stored.sp)
  exact hentry.arrival (fun o _ => hmem _ (by simp)) h.stored (htarget.trans h.target)
    (hargs.ints.trans h.ints) (hargs.floats.trans h.floats)

theorem arrival_struct (clone : HostFn) (h : StructCall b i s) :
    arrival (lfiTrampolineStruct b clone s) = expected i := by
  obtain ⟨⟨j, hcommon⟩, -, htarget, hmem⟩ := h.called.prepared clone
  let u := lazyCtxClone clone (trampolineEntry b s)
  have hmem₁ : ∀ o, (exec loadStructArgs u).mem (.ptr (.ctx i.ctx) o) =
      s.mem (.ptr (.ctx i.ctx) o) := by
    intro o
    rw [← hmem _ (by simp)]
    exact congrFun (mem_exec (by decide) u) _
  obtain ⟨hints, hfloats⟩ := loadStructArgs_spec hcommon.r11
  have hentry := lfiTrampolineCommon_entry hcommon.loadStructArgs ((hmem₁ _).trans h.stored.sp)
  refine hentry.arrival (fun o _ => hmem₁ o) h.stored ?_ ?_ ?_
  · rw [← h.target, ← htarget]
    exact reg_exec (by decide) u
  · rw [hints, ← h.ints]
    exact List.map_congr_left fun o _ => hmem _ (by simp)
  · rw [hfloats, ← h.floats]
    exact List.map_congr_left fun o _ => hmem _ (by simp)

/-! The direct trampoline. -/

/-- It takes its own arguments off the stack, and saves registers there. -/
def directSave : List Instr :=
  [.pop .r11, .pop .r10, .xchg 0 .rsp .r15, .pushImm 0, .push .r14, .push .r13, .push .r12,
    .push .rbx, .push .rbp, .mov .r15 .r12, .mov .r11 .r13, .mov .r14 .r15, .mov .r10 .r14]

/-- With a cache of the segment base it reads `lfi_invoke_info` late. -/
def directGs (b : Build) (s : State) : State :=
  if b.segueCacheGs then exec [.lea INVOKE_GS_BASE .rbx .rbx] (getInvokeInfo b .rbx s) else s

theorem lfiTrampolineDirect_eq (b : Build) (clone : HostFn) (s : State) :
    lfiTrampolineDirect b clone s =
      lfiTrampolineCommon b (directGs b (lazyCtxClone clone (exec directSave s))) := rfl

theorem directSave_spec {p x : W} {n nStack : W} (hsp : s.reg .rsp = .ptr (.stack s.thread) k)
    (hargs : s.mem.Holds (.ptr (.stack s.thread) k) [p, x, n, nStack]) :
    let t := exec directSave s
    t.reg .rsp = .ptr (.stack s.thread) (k - 32) ∧ t.reg .r11 = p ∧ t.reg .r13 = p ∧
      t.reg .r12 = n ∧ t.thread = s.thread ∧ SameArgs s t ∧
      ∀ a, OffStack s (k + 32) a → t.mem a = s.mem a := by
  simp -implicitDefEqProofs [Cells.Holds, Int.add_assoc] at hargs
  refine ⟨?_, ?_, ?_, ?_, ?_, ⟨?_, ?_⟩, ?_⟩ <;>
    simp +contextual -implicitDefEqProofs [directSave, exec1, State.push, State.top, State.drop,
      State.ea, hsp, hargs, intArgs, xmmArgs, OffStack, Cells.set_apply, Int.sub_eq_add_neg,
      Int.add_assoc]

/-- Where the variable is found by a call of `__tls_get_addr`. -/
def Build.CallsTls (b : Build) : Prop := ∃ g, b.tls = .dynamic g

/-- The same build with another `__tls_get_addr`. -/
def Build.withTlsGetAddr (b : Build) (g : TlsGetAddr b.gottpoff) : Build :=
  match b.tls with
  | .dynamic _ => { b with tls := .dynamic g }
  | _ => b

/-- The registers of the trampoline itself, and its arguments, where it has read
`lfi_invoke_info` in time. -/
theorem directGs_spec (hr : b.segueCacheGs = true → (getInvokeInfo b .rbx s).reg .r11 = s.reg .r11)
    (hsp : s.reg .rsp = .ptr (.stack s.thread) k) :
    let t := directGs b s
    OnStack s t k k ∧ (∀ r ∈ [Reg.r11, .r12, .r13], t.reg r = s.reg r) ∧ SameArgs s t ∧
      (b.segueCacheGs = true → t.reg .rbx = (invokeInfo b s.thread).offset INVOKE_GS_BASE) := by
  unfold directGs
  cases hcache : b.segueCacheGs with
  | false =>
      refine ⟨⟨hsp, rfl, id, fun _ _ => rfl⟩, fun _ _ => rfl, ⟨fun _ _ => rfl, fun _ _ => rfl⟩, ?_⟩
      exact fun h => absurd h Bool.false_ne_true
  | true =>
      obtain ⟨hstack, hinfo, hkept, hargs⟩ := getInvokeInfo_spec (b := b) (.inr rfl) hsp
      let t := getInvokeInfo b .rbx s
      have hreg : ∀ r, r ≠ .rbx → (exec [.lea INVOKE_GS_BASE .rbx .rbx] t).reg r = t.reg r := by
        intro r hr
        simp [exec1, hr]
      simp only [if_true]
      refine ⟨⟨?_, hstack.thread, hstack.df, hstack.mem⟩, ?_, ?_, fun _ => ?_⟩
      · exact (hreg .rsp (by decide)).trans hstack.rsp
      · intro r hmem
        simp only [List.mem_cons, List.not_mem_nil, or_false] at hmem
        rcases hmem with rfl | rfl | rfl
        · exact (hreg _ (by decide)).trans (hr hcache)
        · exact (hreg _ (by decide)).trans (hkept _ (by decide) (by decide))
        · exact (hreg _ (by decide)).trans (hkept _ (by decide) (by decide))
      · exact hargs.trans (sameArgs_exec (by decide) (by decide) t)
      · rw [← hinfo]
        simp [exec1, State.ea]

/-- The two sequences without a call keep the context. -/
theorem r11_getInvokeInfo (h : ¬b.CallsTls) (s : State) :
    (getInvokeInfo b .rbx s).reg .r11 = s.reg .r11 := by
  unfold getInvokeInfo
  split
  · simp [exec1]
  · simp [exec1, State.push, State.drop]
  · rename_i g hg
    exact absurd ⟨g, hg⟩ h

theorem arrival_direct (clone : HostFn) (h : DirectCall b i s)
    (htls : ¬(b.segueCacheGs = true ∧ b.CallsTls)) :
    arrival (lfiTrampolineDirect b clone s) = expected i := by
  obtain ⟨k, nStack, hsp, hholds, hoff⟩ := h.call
  obtain ⟨hsp₁, hr11₁, hr13₁, hr12₁, hthread₁, hargs₁, hmem₁⟩ := directSave_spec hsp hholds
  let s₁ := exec directSave s
  have hslot₁ : s₁.mem (.ptr i.slot i.off) = .ptr (.ctx i.ctx) 0 :=
    (hmem₁ _ hoff).trans h.stored.slot
  have hne : s₁.mem (.ptr i.slot i.off) ≠ .int 0#64 := by simp [hslot₁]
  obtain ⟨hmem₂, hthread₂, -, hr11₂, hreg₂, hargs₂⟩ := lazyCtxClone_of_ne clone hr11₁ hne
  let s₂ := lazyCtxClone clone s₁
  have hthread : s₂.thread = s.thread := hthread₂.trans hthread₁
  have hsp₂ : s₂.reg .rsp = .ptr (.stack s₂.thread) (k - 32) := by
    rw [hthread, ← hsp₁]
    exact hreg₂ _ (by decide)
  have hr : b.segueCacheGs = true → (getInvokeInfo b .rbx s₂).reg .r11 = s₂.reg .r11 :=
    fun hcache => r11_getInvokeInfo (fun hcalls => htls ⟨hcache, hcalls⟩) s₂
  obtain ⟨hstack, hkept, hargs₃, hrbx⟩ := directGs_spec hr hsp₂
  let u := directGs b s₂
  have hmem : ∀ a, OffStack s (k - 32) a → OffStack s (k + 32) a → u.mem a = s.mem a := by
    intro a ha ha'
    rw [← hmem₁ a ha']
    refine (hstack.mem a ?_).trans (congrFun hmem₂ a)
    rwa [OffStack, hthread]
  have hoff' : OffStack s (k - 32) (.ptr i.slot i.off) := fun o ho => hoff o (by omega)
  have hcommon : AtCommon b i.ctx (k - 32) u := by
    refine ⟨?_, ?_, ?_, i.slot, i.off, ?_, ?_, h.stored.outside, ?_, ?_⟩
    · rw [hstack.rsp, hstack.thread]
    · rw [← hslot₁, ← hr11₂]
      exact hkept _ (by decide)
    · rw [hstack.thread]
      exact hrbx
    · rw [← hr13₁, ← hreg₂ .r13 (by decide)]
      exact hkept _ (by decide)
    · rw [← h.stored.slot]
      exact hmem _ hoff' hoff
    · rw [hstack.thread, hthread]
      exact h.info
    · intro o ho
      rw [hstack.thread, hthread]
      exact hoff' o ho
  have hcells : ∀ o, u.mem (.ptr (.ctx i.ctx) o) = s.mem (.ptr (.ctx i.ctx) o) :=
    fun o => hmem _ (by intro j _; simp) (by intro j _; simp)
  have hentry := lfiTrampolineCommon_entry hcommon ((hcells _).trans h.stored.sp)
  have hargs : SameArgs s u := hargs₁.trans (hargs₂.trans hargs₃)
  rw [lfiTrampolineDirect_eq]
  refine hentry.arrival (fun o _ => hcells o) h.stored ?_ (hargs.ints.trans h.ints)
    (hargs.floats.trans h.floats)
  rw [← hr12₁, ← hreg₂ .r12 (by decide)]
  exact hkept _ (by decide)

/-! A `__tls_get_addr` that leaves a scratch value where the context was. -/

def TlsGetAddr.clobber {gottpoff : BitVec 64} (g : TlsGetAddr gottpoff) : TlsGetAddr gottpoff where
  run s := (g.run s).setReg .r11 .undef
  returns s := by
    have h := g.returns s
    refine ⟨?_, fun r hr => ?_, h.stack, h.pc, h.df, h.thread⟩
    · rw [← h.rsp]
      rfl
    · rw [← h.saved r hr]
      fin_cases hr <;> rfl
  rax s := g.rax s
  mem := g.mem

theorem commonEnter_rsp (b : Build) (s : State) :
    (commonEnter b s).reg .rsp =
      ((s.reg .rsp).map (· &&& 0xfffffffffffffff0)).offset (-8) := by
  obtain ⟨hreg₁, -, -, -⟩ := commonSegue_regs b s
  let s₁ := commonSegue b s
  let s₂ := exec commonLoad s₁
  obtain ⟨hreg₃, -, -, -, -⟩ := loadFp_spec b .r13 s₂
  let s₃ := loadFp b .r13 s₂
  obtain ⟨-, hreg₄, -, -, -⟩ := commonPku_spec b s₃
  let s₄ := commonPku b s₃
  obtain ⟨-, -, -, -, hreg₆⟩ := zeroRegs_spec b (exec commonTarget s₄)
  have hrsp : s₄.reg .rsp = (s.reg .rsp).map (· &&& 0xfffffffffffffff0) := by
    rw [hreg₄ .rsp (by decide), show s₃.reg = s₂.reg from hreg₃]
    simp -implicitDefEqProofs [s₂, commonLoad, exec1, s₁, hreg₁]
  calc (commonEnter b s).reg .rsp = (exec commonTarget s₄).reg .rsp := hreg₆ _ (by decide)
    _ = (s₄.reg .rsp).offset (-8) := by
        simp -implicitDefEqProofs [commonTarget, exec1, State.push]
    _ = _ := by rw [hrsp]

/-- From a context that is nowhere the sandbox gets no stack pointer. -/
theorem rsp_lfiTrampolineCommon_of_undef (b : Build)
    (hsp : u.reg .rsp = .ptr (.stack u.thread) k) (hr11 : u.reg .r11 = .undef) :
    (lfiTrampolineCommon b u).reg .rsp = .undef := by
  have hrsp : (exec commonSwitch u).reg .rsp = .ptr (.stack u.thread) (k - 8) := by
    simp -implicitDefEqProofs [commonSwitch, exec1, State.push, State.ea, hsp, hr11, Word.offset,
      Int.sub_eq_add_neg]
  rw [lfiTrampolineCommon, commonEnter_rsp, hrsp]
  rfl

/-- The three calls of one invocation. -/
structure Calls (b : Build) (i : Passed) (s₁ s₂ s₃ : State) : Prop where
  plain : PlainCall b i s₁
  withStruct : StructCall b i s₂
  direct : DirectCall b i s₃

/-- The sandbox is entered in the same way. -/
structure Agree (b : Build) (clone : HostFn) (s₁ s₂ s₃ : State) : Prop where
  withStruct : arrival (lfiTrampolineStruct b clone s₂) = arrival (lfiTrampoline b clone s₁)
  direct : arrival (lfiTrampolineDirect b clone s₃) = arrival (lfiTrampoline b clone s₁)

variable {s₁ s₂ s₃ : State}

theorem agree_of_not_calls (clone : HostFn) (h : Calls b i s₁ s₂ s₃)
    (htls : ¬(b.segueCacheGs = true ∧ b.CallsTls)) : Agree b clone s₁ s₂ s₃ := by
  constructor
  · rw [arrival_struct clone h.withStruct, arrival_plain clone h.plain]
  · rw [arrival_direct clone h.direct htls, arrival_plain clone h.plain]

theorem rsp_direct_of_clobber {b : Build} {g : TlsGetAddr b.gottpoff} (clone : HostFn)
    (hcache : b.segueCacheGs = true) (htls : b.tls = .dynamic g.clobber)
    (h : DirectCall b i s) : (lfiTrampolineDirect b clone s).reg .rsp = .undef := by
  obtain ⟨k, nStack, hsp, hholds, hoff⟩ := h.call
  obtain ⟨hsp₁, hr11₁, -, -, hthread₁, -, hmem₁⟩ := directSave_spec hsp hholds
  let s₁ := exec directSave s
  have hne : s₁.mem (.ptr i.slot i.off) ≠ .int 0#64 := by
    rw [hmem₁ _ hoff, h.stored.slot]
    simp
  obtain ⟨-, hthread₂, -, -, hreg₂, -⟩ := lazyCtxClone_of_ne clone hr11₁ hne
  let s₂ := lazyCtxClone clone s₁
  have hsp₂ : s₂.reg .rsp = .ptr (.stack s₂.thread) (k - 32) := by
    rw [show s₂.thread = s.thread from hthread₂.trans hthread₁, ← hsp₁]
    exact hreg₂ _ (by decide)
  obtain ⟨hstack, -, -, -⟩ := getInvokeInfo_spec (b := b) (.inr rfl) hsp₂
  let t := getInvokeInfo b .rbx s₂
  have hr11 : t.reg .r11 = .undef := by
    have hget : t = exec (tlsRestore .rbx) (g.clobber.run (exec tlsSave s₂)) := by
      simp only [t, getInvokeInfo, htls]
    rw [hget, reg_exec (by decide)]
    rfl
  have hgs : directGs b s₂ = exec [.lea INVOKE_GS_BASE .rbx .rbx] t := by
    simp only [directGs, hcache, if_true, t]
  rw [lfiTrampolineDirect_eq, hgs]
  refine rsp_lfiTrampolineCommon_of_undef (k := k - 32) b ?_ ?_
  · rw [thread_exec, hstack.thread, ← hstack.rsp]
    exact reg_exec (by decide) t
  · rw [← hr11]
    exact reg_exec (by decide) t

theorem withTlsGetAddr_of_not_calls (h : ¬b.CallsTls) (g : TlsGetAddr b.gottpoff) :
    b.withTlsGetAddr g = b := by
  rw [Build.withTlsGetAddr]
  split
  · rename_i g' hg
    exact absurd ⟨g', hg⟩ h
  · rfl

theorem segueCacheGs_withTlsGetAddr (b : Build) (g : TlsGetAddr b.gottpoff) :
    (b.withTlsGetAddr g).segueCacheGs = b.segueCacheGs := by
  rw [Build.withTlsGetAddr]
  split <;> rfl

theorem invokeInfo_withTlsGetAddr (b : Build) (g : TlsGetAddr b.gottpoff) (thread : Nat) :
    invokeInfo (b.withTlsGetAddr g) thread = invokeInfo b thread := by
  rw [Build.withTlsGetAddr]
  split <;> rfl

theorem InvokeCall.withTlsGetAddr (h : InvokeCall b i s) (g : TlsGetAddr b.gottpoff) :
    InvokeCall (b.withTlsGetAddr g) i s := by
  have hinfo := invokeInfo_withTlsGetAddr b g s.thread
  obtain ⟨k, hcall⟩ := h.call
  refine ⟨⟨k, hcall.rsp, ?_, hcall.above⟩, ?_, ?_, ?_, h.stored⟩
  · rw [hinfo, hcall.ctxp]
  · rw [hinfo]
    exact h.info
  · rw [hinfo, h.box]
  · rw [hinfo, h.target]

theorem Calls.withTlsGetAddr (h : Calls b i s₁ s₂ s₃) (g : TlsGetAddr b.gottpoff) :
    Calls (b.withTlsGetAddr g) i s₁ s₂ s₃ := by
  refine ⟨⟨h.plain.toInvokeCall.withTlsGetAddr g, h.plain.ints, h.plain.floats⟩,
    ⟨h.withStruct.toInvokeCall.withTlsGetAddr g, h.withStruct.ints, h.withStruct.floats⟩,
    ⟨h.direct.call, ?_, h.direct.stored, h.direct.ints, h.direct.floats⟩⟩
  rw [invokeInfo_withTlsGetAddr]
  exact h.direct.info

/-- The trampolines agree whatever `__tls_get_addr` does to the scratch registers, exactly
where the direct one does not call it with the context in one of these. -/
theorem agree_iff (clone : HostFn) (hcalls : Calls b i s₁ s₂ s₃) :
    (∀ g, Agree (b.withTlsGetAddr g) clone s₁ s₂ s₃) ↔
      ¬(b.segueCacheGs = true ∧ b.CallsTls) := by
  constructor
  · rintro hagree ⟨hcache, g, hg⟩
    have hwith : b.withTlsGetAddr g.clobber = { b with tls := .dynamic g.clobber } := by
      rw [Build.withTlsGetAddr, hg]
    have hcall := hcalls.withTlsGetAddr g.clobber
    have hsame := (hagree g.clobber).direct
    rw [hwith] at hcall hsame
    have hundef := rsp_direct_of_clobber (b := { b with tls := .dynamic g.clobber }) (g := g)
      clone hcache rfl hcall.direct
    have hplain := arrival_plain clone hcall.plain
    have hsp : Word.undef = Word.int ((i.sp &&& 0xfffffffffffffff0) - 8) :=
      hundef.symm.trans (congrArg Arrival.sp (hsame.trans hplain))
    cases hsp
  · intro htls g
    refine agree_of_not_calls clone (hcalls.withTlsGetAddr g) fun h => ?_
    refine htls ⟨(segueCacheGs_withTlsGetAddr b g).symm.trans h.1, ?_⟩
    by_contra hnot
    rw [withTlsGetAddr_of_not_calls hnot] at h
    exact hnot h.2

end LfiRuntime.X64
