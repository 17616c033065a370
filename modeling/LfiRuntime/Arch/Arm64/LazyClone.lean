import LfiRuntime.Arch.Arm64.Enter

/-!
The argument registers on the way through `lfi_trampoline`, with and without
the slow path that initializes the context.
-/

namespace LfiRuntime.Arm64

open LfiRuntime.BlockMemory
open LfiRuntime.Layout

variable {b : Build} {s t : State} {k : Int} {blk : Block} {o : Int}

/-- What `.trampoline_clone` saves, from the stack pointer up: not `x8`. -/
def cloneSaved (s : State) : List W :=
  [(s.v 6).1, (s.v 6).2, (s.v 7).1, (s.v 7).2, (s.v 4).1, (s.v 4).2, (s.v 5).1, (s.v 5).2,
    (s.v 2).1, (s.v 2).2, (s.v 3).1, (s.v 3).2, (s.v 0).1, (s.v 0).2, (s.v 1).1, (s.v 1).2,
    s.x 6, s.x 7, s.x 4, s.x 5, s.x 2, s.x 3, s.x 0, s.x 1,
    s.x 29, .signed (s.x 30) s.sp]

theorem trampolineCloneSave_spec (hsp : s.sp = .ptr (.stack s.thread) k) :
    let t := exec trampolineCloneSave s
    t.sp = .ptr (.stack s.thread) (k - 208) ∧ t.thread = s.thread ∧
      (∀ n, n ∉ [0, 1, 30] → t.x n = s.x n) ∧ t.v = s.v ∧
      (∀ a, OffStack s k a → t.mem a = s.mem a) ∧
      t.mem.Holds (.ptr (.stack s.thread) (k - 208)) (cloneSaved s) := by
  refine ⟨?_, ?_, ?_, ?_, ?_, ?_⟩ <;>
    simp +contextual -implicitDefEqProofs [trampolineCloneSave, cloneSaved, exec1, hsp, OffStack,
      Cells.Holds, Cells.set_apply, Int.sub_eq_add_neg, Int.add_assoc]

theorem trampolineCloneRestore_spec (hsp : t.sp = .ptr (.stack s.thread) (k - 208))
    (hframe : s.sp = .ptr (.stack s.thread) k)
    (hsaved : t.mem.Holds (.ptr (.stack s.thread) (k - 208)) (cloneSaved s)) :
    let u := exec trampolineCloneRestore t
    u.sp = s.sp ∧ u.thread = t.thread ∧ u.mem = t.mem ∧
      (∀ n ∈ [0, 1, 2, 3, 4, 5, 6, 7, 29, 30], u.x n = s.x n) ∧
      (∀ n ∉ [0, 1, 2, 3, 4, 5, 6, 7, 29, 30], u.x n = t.x n) ∧
      (∀ i ∈ vecArgs, u.v i = s.v i) ∧ ∀ i ∉ vecArgs, u.v i = t.v i := by
  simp -implicitDefEqProofs [cloneSaved, Cells.Holds, Int.sub_eq_add_neg, Int.add_assoc]
    at hsaved hsp
  refine ⟨?_, ?_, ?_, ?_, ?_, ?_, ?_⟩
  · simp -implicitDefEqProofs [trampolineCloneRestore, exec1, hsp, hsaved, hframe, Int.add_assoc]
  · exact thread_exec _ t
  · exact mem_exec (by decide) t
  · simp -implicitDefEqProofs [trampolineCloneRestore, exec1, hsp, hsaved, hframe, Int.add_assoc,
      authenticate]
  · intro n hn
    exact x_exec (by revert n; decide) t
  · simp -implicitDefEqProofs [trampolineCloneRestore, exec1, hsp, hsaved, vecArgs, Int.add_assoc]
  · intro i hi
    exact v_exec (by revert i; decide) t

/-- The state in which `.trampoline_clone` calls `lfi_clone`. -/
def cloneCall (s : State) : State := exec trampolineCloneSave s

theorem trampolineClone_spec (clone : HostFn) (hsp : s.sp = .ptr (.stack s.thread) k) :
    let t := trampolineClone clone s
    t.sp = s.sp ∧ t.thread = s.thread ∧ t.x 8 = (clone.run (cloneCall s)).x 8 ∧
      (∀ n ∈ [0, 1, 2, 3, 4, 5, 6, 7, 29, 30], t.x n = s.x n) ∧
      (∀ n ∈ calleeSaved, t.x n = s.x n) ∧ (∀ i ∈ vecArgs, t.v i = s.v i) ∧
      (∀ i ∈ calleeSavedV, (t.v i).1 = (s.v i).1) ∧
      ∀ j, k ≤ j → t.mem (.ptr (.stack s.thread) j) = s.mem (.ptr (.stack s.thread) j) := by
  obtain ⟨hsp₁, hthread₁, hx₁, hv₁, hmem₁, hsaved⟩ := trampolineCloneSave_spec hsp
  have hret := clone.returns (exec trampolineCloneSave s)
  have hkept := hret.stack (k - 208) (by rw [hsp₁, hthread₁])
  rw [hthread₁] at hkept
  obtain ⟨hsp₂, hthread₂, hmem₂, hargs₂, hx₂, hvecs₂, hv₂⟩ := trampolineCloneRestore_spec
    (hret.sp.trans hsp₁) hsp (hsaved.congr fun i hi => hkept i hi)
  refine ⟨hsp₂, ?_, ?_, hargs₂, ?_, hvecs₂, ?_, ?_⟩
  · exact hthread₂.trans (hret.thread.trans hthread₁)
  · exact hx₂ 8 (by decide)
  · intro n hn
    by_cases h29 : n = 29
    · exact hargs₂ n (by simp [h29])
    · rw [← hx₁ n (by revert n; decide), ← hret.saved n hn]
      exact hx₂ n (by revert n; decide)
  · intro i hi
    have hout := hv₂ i (by revert i; decide)
    calc _ = ((clone.run (exec trampolineCloneSave s)).v i).1 := congrArg Prod.fst hout
      _ = ((exec trampolineCloneSave s).v i).1 := hret.savedV i hi
      _ = (s.v i).1 := by rw [hv₁]
  · intro j hj
    rw [← hmem₁ _ (offStack_of_le hj), ← hkept j (by omega)]
    exact congrFun hmem₂ _

/-- A call of `.trampoline_clone` leaves the stack pointer as it was. -/
theorem sp_call_trampolineClone (clone : HostFn) (hsp : s.sp = .ptr (.stack s.thread) k) :
    (trampolineClone clone (exec [.bl .trampolineClone] s)).sp = s.sp := by
  have hcall : (exec [.bl .trampolineClone] s).sp =
      .ptr (.stack (exec [.bl .trampolineClone] s).thread) k := hsp
  obtain ⟨hout, -⟩ := trampolineClone_spec clone hcall
  exact hout

theorem lazyCtxClone_of_ne (clone : HostFn) (hp : s.x 20 = .ptr blk o)
    (hne : s.mem (.ptr blk o) ≠ .int 0#64) :
    lazyCtxClone clone s = exec [.ldr (.x 13) (.x 20) 0] s := by
  have hset : (exec [.ldr (.x 13) (.x 20) 0] s).x 13 ≠ .int 0 := by
    simp [exec1, hp, hne]
  simp only [lazyCtxClone, if_neg hset]

theorem lazyCtxClone_of_null (clone : HostFn) (hp : s.x 20 = .ptr blk o)
    (hnull : s.mem (.ptr blk o) = .int 0#64) :
    lazyCtxClone clone s = exec [.ldr (.x 13) (.x 20) 0] (trampolineClone clone
      (exec [.ldr (.x 13) (.x 20) 0, .bl .trampolineClone] s)) := by
  have hzero : (exec [.ldr (.x 13) (.x 20) 0] s).x 13 = .int 0 := by
    simp [exec1, hp, hnull]
  simp only [lazyCtxClone, if_pos hzero]
  rfl

/-- With a context already there, the arguments reach the sandbox. -/
theorem lfiTrampoline_args (clone : HostFn) (h : Invoked b s k blk o)
    (hset : s.mem (.ptr blk o) ≠ .int 0#64) : SameArgs s (lfiTrampoline b clone s) := by
  obtain ⟨-, -, hx20, hmem, hargs, -⟩ := trampolineEntry_spec h
  have hset' : (trampolineEntry b s).mem (.ptr blk o) ≠ .int 0#64 := by
    rwa [hmem _ h.above]
  rw [lfiTrampoline, lazyCtxClone_of_ne clone hx20 hset']
  exact hargs.trans ((sameArgs_exec (by decide) (by decide) _).trans lfiTrampolineCommon_args)

/-- The state at the call of `lfi_clone` by a trampoline. -/
def lazyCloneCall (b : Build) (s : State) : State :=
  cloneCall (exec [.ldr (.x 13) (.x 20) 0, .bl .trampolineClone] (trampolineEntry b s))

/-- Without one, all of them do but `x8`, which is what `lfi_clone` leaves. -/
theorem lfiTrampoline_args_of_null (clone : HostFn) (h : Invoked b s k blk o)
    (hnull : s.mem (.ptr blk o) = .int 0#64) :
    let t := lfiTrampoline b clone s
    t.x 8 = (clone.run (lazyCloneCall b s)).x 8 ∧
      (∀ n ∈ [0, 1, 2, 3, 4, 5, 6, 7], t.x n = s.x n) ∧ ∀ i ∈ vecArgs, t.v i = s.v i := by
  obtain ⟨hsp, hthread, hx20, hmem, hargs, -⟩ := trampolineEntry_spec h
  have hnull' : (trampolineEntry b s).mem (.ptr blk o) = .int 0#64 := by
    rwa [hmem _ h.above]
  let s₁ := exec [.ldr (.x 13) (.x 20) 0, .bl .trampolineClone] (trampolineEntry b s)
  have hsp₁ : s₁.sp = .ptr (.stack s₁.thread) (k - 160) := by
    rw [show s₁.thread = s.thread from (thread_exec _ _).trans hthread, ← hsp]
    rfl
  obtain ⟨-, -, hx8, hx, -, hv, -⟩ := trampolineClone_spec clone hsp₁
  have hargs₁ : SameArgs s s₁ := hargs.trans (sameArgs_exec (by decide) (by decide) _)
  have hcommon : SameArgs (trampolineClone clone s₁) (lfiTrampoline b clone s) := by
    rw [lfiTrampoline, lazyCtxClone_of_null clone hx20 hnull']
    exact (sameArgs_exec (by decide) (by decide) _).trans lfiTrampolineCommon_args
  refine ⟨?_, ?_, ?_⟩
  · rw [hcommon.x 8 (by decide), hx8]
    rfl
  · intro n hn
    rw [hcommon.x n (by revert n; decide), hx n (by revert n; decide)]
    exact hargs₁.x n (by revert n; decide)
  · intro i hi
    rw [hcommon.v i hi, hv i hi, hargs₁.v i hi]

/-- An invocation `s` whose context is not there yet, and the same one `t` with
its context. -/
structure LazyPair (b : Build) (s t : State) : Prop where
  first : ∃ k blk o, Invoked b s k blk o ∧ s.mem (.ptr blk o) = .int 0#64
  later : ∃ k blk o, Invoked b t k blk o ∧ t.mem (.ptr blk o) ≠ .int 0#64
  args : SameArgs t s

/-- The sandbox function cannot tell the two from its arguments, and the slow
path returns with the host stack pointer it was called with. -/
structure Transparent (b : Build) (clone : HostFn) (s t : State) : Prop where
  args : SameArgs (lfiTrampoline b clone t) (lfiTrampoline b clone s)
  sp : (trampolineClone clone (exec [.ldr (.x 13) (.x 20) 0, .bl .trampolineClone]
    (trampolineEntry b s))).sp = (trampolineEntry b s).sp

/-- The slow path delivers the arguments of the fast path exactly when
`lfi_clone` leaves in `x8` what the caller had there. -/
theorem transparent_iff (clone : HostFn) (h : LazyPair b s t) :
    Transparent b clone s t ↔ (clone.run (lazyCloneCall b s)).x 8 = s.x 8 := by
  obtain ⟨k, blk, o, hs, hnull⟩ := h.first
  obtain ⟨k', blk', o', ht, hset⟩ := h.later
  obtain ⟨hx8, hx, hv⟩ := lfiTrampoline_args_of_null clone hs hnull
  have hfast := lfiTrampoline_args clone ht hset
  constructor
  · intro hsame
    rw [← hx8, hsame.args.x 8 (by decide), hfast.x 8 (by decide), h.args.x 8 (by decide)]
  · intro hkept
    refine ⟨⟨?_, ?_⟩, ?_⟩
    · intro n hn
      by_cases h8 : n = 8
      · rw [h8, hx8, hkept, hfast.x 8 (by decide), h.args.x 8 (by decide)]
      · rw [hx n (by revert n; decide), hfast.x n hn, h.args.x n hn]
    · intro i hi
      rw [hv i hi, hfast.v i hi, h.args.v i hi]
    · obtain ⟨hsp, hthread, -⟩ := trampolineEntry_spec hs
      rw [← hthread] at hsp
      exact sp_call_trampolineClone (s := exec [.ldr (.x 13) (.x 20) 0] (trampolineEntry b s))
        clone hsp

end LfiRuntime.Arm64
