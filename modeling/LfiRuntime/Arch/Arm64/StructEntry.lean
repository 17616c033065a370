import LfiRuntime.Arch.Arm64.LazyClone

/-!
The argument registers, the stack and the memory of the sandbox where
`lfi_trampoline_struct` enters it.
-/

namespace LfiRuntime.Arm64

open LfiRuntime.BlockMemory
open LfiRuntime.Layout

/-- The registers of the first eight numbers: `x8` is not one of them. -/
def intRegArgs : List (Fin 31) := [0, 1, 2, 3, 4, 5, 6, 7]

/-- Where a context keeps what goes to `intRegArgs`, and to the low lanes of `vecArgs`. -/
def intArgCells : List Int := (List.range 8).map REGS_X

def vecArgCells : List Int := (List.range 8).map REGS_V

variable {b : Build} {s : State} {c : Nat} {sp : BitVec 64}

theorem loadStructArgs_spec (hctx : s.x 13 = .ptr (.ctx c) 0) :
    let t := exec loadStructArgs s
    intRegArgs.map t.x = intArgCells.map (fun i => s.mem (.ptr (.ctx c) i)) ∧
      (vecArgs.map fun i => (t.v i).1) = vecArgCells.map (fun i => s.mem (.ptr (.ctx c) i)) := by
  constructor <;>
    simp -implicitDefEqProofs [loadStructArgs, exec1, hctx, intRegArgs, vecArgs, intArgCells,
      vecArgCells, List.range_succ]

theorem SameArgs.ints {t : State} (h : SameArgs s t) :
    intRegArgs.map t.x = intRegArgs.map s.x :=
  List.map_congr_left fun n hn => h.x n (by revert n; decide)

theorem SameArgs.floats {t : State} (h : SameArgs s t) :
    (vecArgs.map fun i => (t.v i).1) = vecArgs.map fun i => (s.v i).1 :=
  List.map_congr_left fun i hi => congrArg Prod.fst (h.v i hi)

/-- A call of a trampoline by `call_ptr`, which has made sure of the context. -/
structure Called (b : Build) (c : Nat) (sp : BitVec 64) (s : State) : Prop where
  call : ∃ k blk o, Invoked b s k blk o ∧ s.mem (.ptr blk o) = .ptr (.ctx c) 0 ∧ blk ≠ .ctx c
  savedSp : s.mem (.ptr (.ctx c) REGS_SP) = .int sp

/-- What the function in the sandbox finds. -/
structure Entered (c : Nat) (sp : BitVec 64) (s t : State) : Prop where
  ints : intRegArgs.map t.x = intArgCells.map fun i => s.mem (.ptr (.ctx c) i)
  floats : (vecArgs.map fun i => (t.v i).1) = vecArgCells.map fun i => s.mem (.ptr (.ctx c) i)
  sp : t.sp = .int sp
  retAddr : t.x 30 = s.mem (.ptr (.ctx c) REGS_RETADDR)
  mem : ∀ a, t.mem (.int a) = s.mem (.int a)

theorem commonSwitch_entry {k : Int} (hctx : s.x 13 = .ptr (.ctx c) 0)
    (hsp : s.sp = .ptr (.stack s.thread) k) :
    let t := exec commonSwitch s
    t.sp = s.mem (.ptr (.ctx c) REGS_SP) ∧ t.x 30 = s.mem (.ptr (.ctx c) REGS_RETADDR) ∧
      ∀ a, t.mem (.int a) = s.mem (.int a) := by
  refine ⟨?_, ?_, ?_⟩ <;>
    simp -implicitDefEqProofs [commonSwitch, exec1, hctx, hsp, Cells.set_apply]

theorem lfiTrampolineCommon_entry {k : Int} (hctx : s.x 13 = .ptr (.ctx c) 0)
    (hsp : s.sp = .ptr (.stack s.thread) k) :
    let t := lfiTrampolineCommon b s
    t.sp = s.mem (.ptr (.ctx c) REGS_SP) ∧ t.x 30 = s.mem (.ptr (.ctx c) REGS_RETADDR) ∧
      ∀ a, t.mem (.int a) = s.mem (.int a) := by
  obtain ⟨hsp₁, hret₁, hmem₁⟩ := commonSwitch_entry hctx hsp
  let s₁ := exec commonSwitch s
  let s₂ := if b.storesOnly then s₁ else exec zeroRegs s₁
  have hkept : s₂.sp = s₁.sp ∧ s₂.x 30 = s₁.x 30 ∧ s₂.mem = s₁.mem := by
    unfold s₂
    cases b.storesOnly with
    | true => exact ⟨rfl, rfl, rfl⟩
    | false =>
        exact ⟨reg_exec (r := .sp) (by decide) s₁, x_exec (by decide) s₁, mem_exec (by decide) s₁⟩
  refine ⟨?_, ?_, fun a => ?_⟩
  · exact (reg_exec (r := .sp) (by decide) s₂).trans (hkept.1.trans hsp₁)
  · exact (x_exec (by decide) s₂).trans (hkept.2.1.trans hret₁)
  · exact (congrFun ((mem_exec (by decide) s₂).trans hkept.2.2) _).trans (hmem₁ a)

theorem lfiTrampolineStruct_spec (clone : HostFn) (h : Called b c sp s) :
    Entered c sp s (lfiTrampolineStruct b clone s) := by
  obtain ⟨k, blk, o, hcall, hslot, -⟩ := h.call
  obtain ⟨hsp₁, hthread₁, hx20, hmem₁, -, -⟩ := trampolineEntry_spec hcall
  let s₁ := trampolineEntry b s
  have hslot₁ : s₁.mem (.ptr blk o) = .ptr (.ctx c) 0 := by
    rw [hmem₁ _ hcall.above, hslot]
  let s₂ := exec [.ldr (.x 13) (.x 20) 0] s₁
  have hlazy : lazyCtxClone clone s₁ = s₂ := lazyCtxClone_of_ne clone hx20 (by simp [hslot₁])
  have hctx₂ : s₂.x 13 = .ptr (.ctx c) 0 := by
    rw [← hslot₁]
    simp [s₂, exec1, s₁, hx20]
  obtain ⟨hints, hfloats⟩ := loadStructArgs_spec hctx₂
  let s₃ := exec loadStructArgs s₂
  have hcell : ∀ i, s₂.mem (.ptr (.ctx c) i) = s.mem (.ptr (.ctx c) i) := by
    intro i
    rw [← hmem₁ _ (by intro j _; simp)]
    exact congrFun (mem_exec (by decide) s₁) _
  have hmem₃ : ∀ a, OffStack s k a → s₃.mem a = s.mem a := by
    intro a ha
    calc s₃.mem a = s₁.mem a :=
          congrFun ((mem_exec (by decide) s₂).trans (mem_exec (by decide) s₁)) a
      _ = s.mem a := hmem₁ a ha
  have hctx₃ : s₃.x 13 = .ptr (.ctx c) 0 := (x_exec (by decide) s₂).trans hctx₂
  have hsp₃ : s₃.sp = .ptr (.stack s₃.thread) (k - 160) := by
    rw [show s₃.thread = s.thread from
      (thread_exec _ s₂).trans ((thread_exec _ s₁).trans hthread₁), ← hsp₁]
    exact (reg_exec (r := .sp) (by decide) s₂).trans (reg_exec (r := .sp) (by decide) s₁)
  obtain ⟨hsp₄, hret₄, hmem₄⟩ := lfiTrampolineCommon_entry (b := b) hctx₃ hsp₃
  have hargs : SameArgs s₃ (lfiTrampolineCommon b s₃) := lfiTrampolineCommon_args
  have hstruct : lfiTrampolineStruct b clone s = lfiTrampolineCommon b s₃ := by
    rw [lfiTrampolineStruct, hlazy]
  rw [hstruct]
  refine ⟨?_, ?_, ?_, ?_, fun a => ?_⟩
  · rw [hargs.ints, hints]
    exact List.map_congr_left fun i _ => hcell i
  · rw [hargs.floats, hfloats]
    exact List.map_congr_left fun i _ => hcell i
  · rw [hsp₄, hmem₃ _ (by intro j _; simp), h.savedSp]
  · rw [hret₄, hmem₃ _ (by intro j _; simp)]
  · rw [hmem₄, hmem₃ _ (by intro j _; simp)]

end LfiRuntime.Arm64
