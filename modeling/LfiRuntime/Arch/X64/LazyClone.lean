import LfiRuntime.Arch.X64.Enter

/-!
The argument registers on the way through `lfi_trampoline`, with and without
the slow path that initializes the context.
-/

namespace LfiRuntime.X64

open LfiRuntime.BlockMemory
open LfiRuntime.Layout

variable {b : Build} {s t : State} {k : Int} {blk : Block} {o : Int}

/-- What `.trampoline_clone` saves, from the stack pointer up. -/
def cloneSaved (s : State) : List W :=
  [(s.xmm 7).1, (s.xmm 7).2, (s.xmm 6).1, (s.xmm 6).2, (s.xmm 5).1, (s.xmm 5).2,
    (s.xmm 4).1, (s.xmm 4).2, (s.xmm 3).1, (s.xmm 3).2, (s.xmm 2).1, (s.xmm 2).2,
    (s.xmm 1).1, (s.xmm 1).2, (s.xmm 0).1, (s.xmm 0).2,
    s.reg .r11, s.reg .r10, s.reg .r9, s.reg .r8, s.reg .rcx, s.reg .rdx, s.reg .rsi,
    s.reg .rdi]

theorem trampolineCloneSave_spec (hsp : s.reg .rsp = .ptr (.stack s.thread) k) :
    (trampolineCloneSave s).reg .rsp = .ptr (.stack s.thread) (k - 208) ∧
      (trampolineCloneSave s).thread = s.thread ∧
      (trampolineCloneSave s).mem.Holds (.ptr (.stack s.thread) (k - 200)) (cloneSaved s) := by
  simp -implicitDefEqProofs [trampolineCloneSave, pushx, exec1, State.push, State.ea, hsp,
    cloneSaved, Cells.Holds, Cells.set_apply, Int.sub_eq_add_neg, Int.add_assoc]

/-- The vector registers come back in the order they went in. -/
theorem trampolineCloneRestore_spec (hsp : t.reg .rsp = .ptr (.stack s.thread) (k - 200))
    (hsaved : t.mem.Holds (.ptr (.stack s.thread) (k - 200)) (cloneSaved s)) :
    (trampolineCloneRestore t).reg .rsp = .ptr (.stack s.thread) (k + 8) ∧
      (∀ r ∈ intArgs, (trampolineCloneRestore t).reg r = s.reg r) ∧
      ∀ i ∈ xmmArgs, (trampolineCloneRestore t).xmm i = s.xmm (7 - i) := by
  simp -implicitDefEqProofs [cloneSaved, Cells.Holds, Int.sub_eq_add_neg, Int.add_assoc]
    at hsaved hsp
  simp -implicitDefEqProofs [trampolineCloneRestore, popx, exec1, State.top, State.drop,
    State.ea, hsp, hsaved, intArgs, xmmArgs, Int.add_assoc]

/-- `.trampoline_clone`, entered with its return address on top of the stack. -/
theorem trampolineClone_spec (clone : HostFn) (hsp : s.reg .rsp = .ptr (.stack s.thread) k) :
    (trampolineClone clone s).reg .rsp = .ptr (.stack s.thread) (k + 8) ∧
      (∀ r ∈ intArgs, (trampolineClone clone s).reg r = s.reg r) ∧
      ∀ i ∈ xmmArgs, (trampolineClone clone s).xmm i = s.xmm (7 - i) := by
  obtain ⟨hrsp, hthread, hsaved⟩ := trampolineCloneSave_spec hsp
  rw [← hthread] at hrsp
  have hout := clone.rsp_run hrsp
  have hkept := clone.mem_run hrsp
  rw [hthread] at hout hkept
  apply trampolineCloneRestore_spec
  · rw [hout]
    congr 1
    omega
  · exact hsaved.congr fun i hi => hkept i (by omega)

/-- A call of `.trampoline_clone` leaves the stack pointer as it was. -/
theorem rsp_call_trampolineClone (clone : HostFn) (hsp : s.reg .rsp = .ptr (.stack s.thread) k) :
    (trampolineClone clone (exec [.call .trampolineClone] s)).reg .rsp = s.reg .rsp := by
  have hcall : (exec [.call .trampolineClone] s).reg .rsp =
      .ptr (.stack (exec [.call .trampolineClone] s).thread) (k - 8) := by
    simp [exec1, State.push, hsp, Int.sub_eq_add_neg]
  obtain ⟨hrsp, -, -⟩ := trampolineClone_spec clone hcall
  rw [hrsp, hsp]
  congr 1
  omega

/-- The argument registers as they are after the slow path. -/
structure ReversedArgs (s t : State) : Prop where
  reg : ∀ r ∈ intArgs, t.reg r = s.reg r
  xmm : ∀ i ∈ xmmArgs, t.xmm i = s.xmm (7 - i)

theorem lazyCtxClone_of_null (clone : HostFn) (hsp : s.reg .rsp = .ptr (.stack s.thread) k)
    (hp : s.reg .r11 = .ptr blk o) (hnull : s.mem (.ptr blk o) = .int 0#64) :
    ReversedArgs s (lazyCtxClone clone s) := by
  let s₁ := exec [.cmpMemImm 0 0 .r11] s
  let s₂ := exec [.call .trampolineClone] s₁
  have hcall : s₂.reg .rsp = .ptr (.stack s₂.thread) (k - 8) := by
    simp [s₂, s₁, exec1, State.push, hsp, Int.sub_eq_add_neg]
  obtain ⟨-, hreg, hxmm⟩ := trampolineClone_spec clone hcall
  have hslow : lazyCtxClone clone s = exec [.load 0 .r11 .r11] (trampolineClone clone s₂) := by
    simp [lazyCtxClone, s₂, s₁, exec1, State.ea, hp, hnull, Flags.zf]
  rw [hslow]
  constructor
  · intro r hr
    rw [reg_exec (by revert r; decide), hreg r hr]
    exact reg_exec (by revert r; decide) s₁
  · intro i hi
    exact hxmm i hi

/-- With a context already there, the arguments reach the sandbox. -/
theorem lfiTrampoline_args (clone : HostFn) (h : Invoked b s k blk o)
    (hset : s.mem (.ptr blk o) ≠ .int 0#64) : SameArgs s (lfiTrampoline b clone s) := by
  obtain ⟨hstack, hr11, -, -, hargs, -⟩ := trampolineEntry_spec h
  have hset' : (trampolineEntry b s).mem (.ptr blk o) ≠ .int 0#64 := by
    rwa [hstack.mem _ h.above]
  obtain ⟨-, -, -, -, -, hfast⟩ := lazyCtxClone_of_ne clone hr11 hset'
  have hswitch : SameArgs (lazyCtxClone clone (trampolineEntry b s))
      (exec commonSwitch (lazyCtxClone clone (trampolineEntry b s))) :=
    sameArgs_exec (by decide) (by decide) _
  exact hargs.trans (hfast.trans (hswitch.trans commonEnter_args))

/-- Without one, the vector arguments reach it in the opposite order. -/
theorem lfiTrampoline_args_of_null (clone : HostFn) (h : Invoked b s k blk o)
    (hnull : s.mem (.ptr blk o) = .int 0#64) : ReversedArgs s (lfiTrampoline b clone s) := by
  obtain ⟨hstack, hr11, -, -, hargs, -⟩ := trampolineEntry_spec h
  have hnull' : (trampolineEntry b s).mem (.ptr blk o) = .int 0#64 := by
    rwa [hstack.mem _ h.above]
  have hrsp := hstack.rsp
  rw [← hstack.thread] at hrsp
  have hslow := lazyCtxClone_of_null clone hrsp hr11 hnull'
  have hswitch : SameArgs (lazyCtxClone clone (trampolineEntry b s))
      (exec commonSwitch (lazyCtxClone clone (trampolineEntry b s))) :=
    sameArgs_exec (by decide) (by decide) _
  have hcommon := hswitch.trans (commonEnter_args (b := b))
  constructor
  · intro r hr
    rw [← hargs.reg r hr, ← hslow.reg r hr]
    exact hcommon.reg r hr
  · intro i hi
    have hrev : 7 - i ∈ xmmArgs := by
      revert i
      decide
    rw [← hargs.xmm _ hrev, ← hslow.xmm i hi]
    exact hcommon.xmm i hi

/-- An invocation `s` whose context is not there yet, and the same one `t` with
its context. -/
structure LazyPair (b : Build) (s t : State) : Prop where
  first : ∃ k blk o, Invoked b s k blk o ∧ s.mem (.ptr blk o) = .int 0#64
  later : ∃ k blk o, Invoked b t k blk o ∧ t.mem (.ptr blk o) ≠ .int 0#64
  args : SameArgs t s

/-- The sandbox function cannot tell the two from its arguments, and the slow
path returns with the host stack pointer it was called with. -/
structure Transparent (b : Build) (clone : HostFn) (s t : State) : Prop where
  args : SameArgs (lfiTrampoline b clone t) (lfiTrampoline b clone s)
  rsp : (trampolineClone clone (exec [.cmpMemImm 0 0 .r11, .call .trampolineClone]
    (trampolineEntry b s))).reg .rsp = (trampolineEntry b s).reg .rsp

/-- The slow path delivers the arguments of the fast path exactly when the
vector arguments read the same in both directions. -/
theorem transparent_iff (clone : HostFn) (h : LazyPair b s t) :
    Transparent b clone s t ↔ ∀ i ∈ xmmArgs, s.xmm i = s.xmm (7 - i) := by
  obtain ⟨k, blk, o, hs, hnull⟩ := h.first
  obtain ⟨k', blk', o', ht, hset⟩ := h.later
  have hslow := lfiTrampoline_args_of_null clone hs hnull
  have hfast := lfiTrampoline_args clone ht hset
  constructor
  · intro hsame i hi
    have hrev := hsame.args.xmm i hi
    rw [hslow.xmm i hi, hfast.xmm i hi] at hrev
    rw [hrev, h.args.xmm i hi]
  · intro hpal
    refine ⟨⟨?_, ?_⟩, ?_⟩
    · intro r hr
      rw [hslow.reg r hr, hfast.reg r hr, h.args.reg r hr]
    · intro i hi
      rw [hslow.xmm i hi, hfast.xmm i hi, ← hpal i hi, h.args.xmm i hi]
    · obtain ⟨hstack, -⟩ := trampolineEntry_spec hs
      have hrsp := hstack.rsp
      rw [← hstack.thread] at hrsp
      exact rsp_call_trampolineClone (s := exec [.cmpMemImm 0 0 .r11] (trampolineEntry b s))
        clone hrsp

end LfiRuntime.X64
