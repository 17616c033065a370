import LfiRuntime.Arch.Arm64.Trampoline

/-!
What the parts of a trampoline do on the way into the sandbox.
-/

namespace LfiRuntime.Arm64

open LfiRuntime.BlockMemory
open LfiRuntime.Layout

def intArgs : List (Fin 31) := [0, 1, 2, 3, 4, 5, 6, 7, 8]

def vecArgs : List (Fin 32) := [0, 1, 2, 3, 4, 5, 6, 7]

/-- Two states with the same argument registers. -/
structure SameArgs (s t : State) : Prop where
  x : ∀ n ∈ intArgs, t.x n = s.x n
  v : ∀ i ∈ vecArgs, t.v i = s.v i

/-- The cells outside the part of the host stack below `k`. -/
def OffStack (s : State) (k : Int) (a : W) : Prop :=
  ∀ o, o < k → a ≠ .ptr (.stack s.thread) o

variable {b : Build} {s t u : State} {k : Int} {reg : Reg}

theorem SameArgs.trans (h : SameArgs s t) (h' : SameArgs t u) : SameArgs s u := by
  constructor
  · intro n hn
    rw [h'.x n hn, h.x n hn]
  · intro i hi
    rw [h'.v i hi, h.v i hi]

theorem offStack_of_le {o : Int} (h : k ≤ o) : OffStack s k (.ptr (.stack s.thread) o) := by
  intro i hi heq
  obtain ⟨-, rfl⟩ := Word.ptr.inj heq
  omega

theorem sameArgs_exec {is : List Instr} (hx : ∀ i ∈ is, ∀ n ∈ intArgs, .x n ∉ i.regs)
    (hv : ∀ i ∈ is, ∀ n ∈ vecArgs, n ∉ i.vs) (s : State) : SameArgs s (exec is s) := by
  constructor
  · intro n hn
    exact x_exec (fun i hi => hx i hi n hn) s
  · intro n hn
    exact v_exec (fun i hi => hv i hi n hn) s

/-- What a trampoline saves, from the stack pointer up. -/
def trampolineSaved (s : State) : List W :=
  [s.x 29, .signed (s.x 30) s.sp, s.x 27, s.x 28, s.x 25, s.x 26, s.x 23, s.x 24,
    s.x 21, s.x 22, s.x 19, s.x 20,
    (s.v 14).1, (s.v 15).1, (s.v 12).1, (s.v 13).1, (s.v 10).1, (s.v 11).1,
    (s.v 8).1, (s.v 9).1]

theorem trampolineSave_spec (hsp : s.sp = .ptr (.stack s.thread) k) :
    let t := exec trampolineSave (exec [.paciasp] s)
    t.sp = .ptr (.stack s.thread) (k - 160) ∧ t.thread = s.thread ∧
      (∀ n, n ≠ 30 → t.x n = s.x n) ∧ t.v = s.v ∧
      (∀ a, OffStack s k a → t.mem a = s.mem a) ∧
      t.mem.Holds (.ptr (.stack s.thread) (k - 160)) (trampolineSaved s) := by
  refine ⟨?_, ?_, ?_, ?_, ?_, ?_⟩ <;>
    simp +contextual -implicitDefEqProofs [trampolineSave, trampolineSaved, exec1, hsp, OffStack,
      Cells.Holds, Cells.set_apply, Int.sub_eq_add_neg, Int.add_assoc]

theorem getInvokeInfo_spec (s : State) :
    let t := getInvokeInfo b (.x 19) s
    t.x 19 = invokeInfo b s.thread ∧ t.sp = s.sp ∧ t.thread = s.thread ∧ t.mem = s.mem ∧
      SameArgs s t := by
  unfold getInvokeInfo
  split <;>
    refine ⟨?_, ?_, ?_, ?_, ⟨?_, ?_⟩⟩ <;>
    simp -implicitDefEqProofs [exec1, invokeInfo, Word.add, intArgs, vecArgs]

/-- A call of a trampoline by `LFI_INVOKE`, with the context pointer kept at
`blk + o`. -/
structure Invoked (b : Build) (s : State) (k : Int) (blk : Block) (o : Int) : Prop where
  sp : s.sp = .ptr (.stack s.thread) k
  ctxp : s.mem ((invokeInfo b s.thread).offset INVOKE_CTX) = .ptr blk o
  /-- The variable is not on the stack below its caller. -/
  above : OffStack s k (.ptr blk o)

theorem trampolineEntry_spec {blk : Block} {o : Int} (h : Invoked b s k blk o) :
    let t := trampolineEntry b s
    t.sp = .ptr (.stack s.thread) (k - 160) ∧ t.thread = s.thread ∧
      t.x 20 = .ptr blk o ∧ (∀ a, OffStack s k a → t.mem a = s.mem a) ∧ SameArgs s t ∧
      t.mem.Holds (.ptr (.stack s.thread) (k - 160)) (trampolineSaved s) := by
  obtain ⟨hsp₁, hthread₁, hx₁, hv₁, hmem₁, hsaved⟩ := trampolineSave_spec h.sp
  let s₁ := exec trampolineSave (exec [.paciasp] s)
  obtain ⟨hinfo, hsp₂, hthread₂, hmem₂, hargs₂⟩ := getInvokeInfo_spec (b := b) s₁
  let s₂ := getInvokeInfo b (.x 19) s₁
  have hmem₃ : (exec loadInvokeInfo s₂).mem = s₁.mem :=
    (mem_exec (by decide) s₂).trans hmem₂
  have hctxp : s₂.mem ((invokeInfo b s.thread).offset INVOKE_CTX) = .ptr blk o := by
    rw [← h.ctxp, ← hmem₁ _ ?_]
    · exact congrFun hmem₂ _
    · intro i _
      simp [invokeInfo]
  refine ⟨?_, ?_, ?_, ?_, ?_, ?_⟩
  · calc (exec loadInvokeInfo s₂).sp = s₂.sp := rfl
      _ = s₁.sp := hsp₂
      _ = _ := hsp₁
  · exact (thread_exec _ s₂).trans (hthread₂.trans hthread₁)
  · rw [← hctxp, ← hthread₁, ← hinfo]
    simp [trampolineEntry, loadInvokeInfo, exec1, s₂, s₁]
  · intro a ha
    rw [← hmem₁ a ha]
    exact congrFun hmem₃ a
  · have hargs₁ : SameArgs s s₁ := by
      constructor
      · intro n hn
        exact hx₁ n (by revert n; decide)
      · intro i _
        exact congrFun hv₁ i
    exact hargs₁.trans (hargs₂.trans (sameArgs_exec (by decide) (by decide) s₂))
  · exact hsaved.congr fun i _ => congrFun hmem₃ _

/-- The argument registers from the switch of the stacks to the first
instruction of the sandbox. -/
theorem lfiTrampolineCommon_args : SameArgs s (lfiTrampolineCommon b s) := by
  let s₁ := exec commonSwitch s
  let s₂ := if b.storesOnly then s₁ else exec zeroRegs s₁
  have hargs₁ : SameArgs s s₁ := sameArgs_exec (by decide) (by decide) s
  have hargs₂ : SameArgs s₁ s₂ := by
    unfold s₂
    cases b.storesOnly with
    | true => exact ⟨fun _ _ => rfl, fun _ _ => rfl⟩
    | false => exact sameArgs_exec (by decide) (by decide) s₁
  exact hargs₁.trans (hargs₂.trans (sameArgs_exec (by decide) (by decide) s₂))

end LfiRuntime.Arm64
