import LfiRuntime.Arch.Transitions
import LfiRuntime.Arch.Arm64.LazyClone
import LfiRuntime.Arch.Arm64.Leave
import LfiRuntime.Arch.Arm64.RuntimeCall

/-!
The AArch64 transition code as an architecture of the nested runs.
-/

namespace LfiRuntime.Arm64

open LfiRuntime.BlockMemory
open LfiRuntime.Layout

/-- What `lfi_ctx_entry` saves, from the stack pointer up. -/
def ctxEntrySaved (s : State) : List W :=
  [s.x 29, .signed (s.x 30) s.sp, s.x 27, s.x 28, s.x 25, s.x 26, s.x 23, s.x 24,
    s.x 21, s.x 22, s.x 19, s.x 20, .int 0, s.x 18,
    (s.v 14).1, (s.v 15).1, (s.v 12).1, (s.v 13).1, (s.v 10).1, (s.v 11).1,
    (s.v 8).1, (s.v 9).1]

/-- What a transition leaves on the host stack, from the bottom up. -/
def frameWords (c : Nat) : Transitions.Kind → State → List W
  | .invoke, e => trampolineFrame c e
  | .callback _, e => callbackFrame c e
  | .syscall, _ => [.ptr (.ctx c) 0]
  | .run, e => ctxEntrySaved e

def lowLanes (s : State) : List W := calleeSavedV.map fun i => (s.v i).1

def arch (b : Build) (clone : HostFn) : Transitions.Arch State where
  mem := State.mem
  sp := State.sp
  pc := State.pc
  thread := State.thread
  ctxReg s := s.x 25
  arg0 s := s.x 0
  arg1 s := s.x 1
  kept s := calleeSaved.map s.x ++ lowLanes s
  boxKept s := handlerSaved.map s.x ++ lowLanes s
  retAddr s := s.x 30
  retPop := 0
  spCell := REGS_SP
  abortCell := CTX_ABORT_CALLBACK
  invokeInfo := invokeInfo b
  links c := [(.ptr (.ctxBlock c) SYS_CTX_OFFSET, .ptr (.ctx c) 0),
    (.ptr (.ctx c) (REGS_X 25), .ptr (.ctxBlock c) 0)]
  bound _ _ := []
  size
    | .invoke => 176
    | .callback _ => 32
    | .syscall => 16
    | .run => 176
  words := frameWords
  swaps := false
  lfiTrampoline ws := if ws then lfiTrampolineStruct b clone else lfiTrampoline b clone
  lfiRet := lfiRet
  lfiCallback := lfiCallback
  lfiCallbackEnd := lfiCallbackEnd b
  lfiSyscallEntry := lfiSyscallEntry
  lfiSyscallEnd := lfiSyscallEnd
  lfiCtxEntry := lfiCtxEntry
  lfiCtxEnd := exec lfiCtxEnd

variable {b : Build} {clone : HostFn} {c th : Nat} {s t u e : State} {k j : Int} {ws : Bool}
  {keep : List Int}

theorem attached_iff : Transitions.Attached (arch b clone) c th s ↔
    s.thread = th ∧ s.mem (.ptr (.ctxBlock c) SYS_CTX_OFFSET) = .ptr (.ctx c) 0 ∧
      s.mem (.ptr (.ctx c) (REGS_X 25)) = .ptr (.ctxBlock c) 0 ∧
      ∃ n, s.mem (.ptr (.ctx c) REGS_SP) = .int n := by
  constructor
  · rintro ⟨hthread, hlinked, -, hsaved⟩
    refine ⟨hthread, ?_, ?_, hsaved⟩
    · exact hlinked (_, .ptr (.ctx c) 0) (by simp [arch])
    · exact hlinked (_, .ptr (.ctxBlock c) 0) (by simp [arch])
  · rintro ⟨hthread, hsys, hx25, hsaved⟩
    refine ⟨hthread, ?_, ?_, hsaved⟩
    · intro p hp
      simp only [arch, List.mem_cons, List.not_mem_nil, or_false] at hp
      rcases hp with rfl | rfl
      · exact hsys
      · exact hx25
    · rintro p ⟨⟩

theorem Keeps.attached (h : Keeps c th k keep s t) (hkeep : REGS_X 25 ∈ keep)
    (hs : Transitions.Attached (arch b clone) c th s) {n : BitVec 64}
    (hsaved : t.mem (.ptr (.ctx c) REGS_SP) = .int n) :
    Transitions.Attached (arch b clone) c th t := by
  rw [attached_iff] at hs ⊢
  obtain ⟨hthread, hsys, hx25, -⟩ := hs
  exact ⟨h.thread.trans hthread, (h.mem _ _ (by simp) (by simp)).trans hsys,
    (h.cell hkeep).trans hx25, n, hsaved⟩

theorem map_append_lowLanes {ns : List (Fin 31)} (hx : ∀ n ∈ ns, t.x n = s.x n)
    (hv : ∀ i ∈ calleeSavedV, (t.v i).1 = (s.v i).1) :
    ns.map t.x ++ lowLanes t = ns.map s.x ++ lowLanes s := by
  rw [List.map_congr_left hx, lowLanes, lowLanes, List.map_congr_left hv]

/-- What a C function kept. -/
theorem of_kept (h : (arch b clone).kept t = (arch b clone).kept s) :
    (∀ n ∈ calleeSaved, t.x n = s.x n) ∧ ∀ i ∈ calleeSavedV, (t.v i).1 = (s.v i).1 := by
  obtain ⟨hx, hv⟩ := List.append_inj h (by simp)
  exact ⟨List.map_inj_left.mp hx, List.map_inj_left.mp hv⟩

/-! Callbacks. -/

theorem law_callback (ws : Bool) (h : Transitions.InBox (arch b clone) c th s)
    (hhost : (arch b clone).hostSp c s = Transitions.hostStack th k) :
    let t := lfiCallback ws s
    Transitions.Attached (arch b clone) c th t ∧
      Transitions.Pushed (arch b clone) c th (.callback ws) k s t ∧
      t.sp = Transitions.hostStack th (k - 32) ∧ t.mem (.ptr (.ctx c) REGS_SP) = s.sp ∧
      t.mem (.ptr (.ctx c) REGS_HOST_SP) = s.mem (.ptr (.ctx c) REGS_HOST_SP) ∧
      t.x 22 = .ptr (.ctx c) 0 ∧ (∀ n ∈ [19, 20, 21, 24, 25, 26, 29], t.x n = s.x n) ∧
      t.v = s.v := by
  obtain ⟨-, hsys, -⟩ := attached_iff.mp h.toAttached
  obtain ⟨n, hn⟩ := h.boxSp
  obtain ⟨hsp, hx22, hx, hv, hframe, hsaved, hhost', hkeeps⟩ :=
    lfiCallback_spec ws h.ctxReg hsys hhost
  have hint : s.sp = .int n := hn
  exact ⟨hkeeps.attached (by decide) h.toAttached (hsaved.trans hint),
    ⟨hframe, fun i hi => hkeeps.stack hi⟩, hsp, hsaved, hhost'.trans hhost.symm, hx22, hx, hv⟩

/-- The registers and the stack pointer with which the host function returns. -/
theorem returning_regs (h : Transitions.Returning (arch b clone) c th (.callback ws) e k
      (lfiCallback ws) s) :
    s.sp = .ptr (.stack th) (k - 32) ∧ s.x 22 = .ptr (.ctx c) 0 ∧
      (∀ n ∈ [19, 20, 21, 24, 25, 26, 29], s.x n = e.x n) ∧
      ∀ i ∈ calleeSavedV, (s.v i).1 = (e.v i).1 := by
  obtain ⟨-, -, -, -, -, hx22, hx, hv⟩ := law_callback ws h.entry h.entrySp
  obtain ⟨hkept, hkeptV⟩ := of_kept h.kept
  refine ⟨?_, ?_, ?_, ?_⟩
  · have hsp : s.sp = .ptr (.stack th) (k - 32 + 0) := h.sp
    rw [hsp, Int.add_zero]
  · rw [hkept 22 (by decide), hx22]
  · intro n hn
    rw [hkept n (by revert n; decide), hx n hn]
  · intro i hi
    rw [hkeptV i hi, hv]

theorem law_callbackEnd (h : Transitions.Returning (arch b clone) c th (.callback ws) e k
      (lfiCallback ws) s) (habort : ¬(arch b clone).Aborted c s) :
    let t := lfiCallbackEnd b ws s
    Transitions.InBox (arch b clone) c th t ∧
      t.sp = (s.mem (.ptr (.ctx c) REGS_SP)).offset 0 ∧
      handlerSaved.map t.x ++ lowLanes t = handlerSaved.map e.x ++ lowLanes e ∧
      t.mem (.ptr (.ctx c) REGS_SP) = e.mem (.ptr (.ctx c) REGS_SP) ∧
      t.mem (.ptr (.ctx c) REGS_HOST_SP) = Transitions.hostStack th k ∧
      (arch b clone).SameFrom th k s t ∧
      ∀ o ∈ keptCells, t.mem (.ptr (.ctx c) o) = s.mem (.ptr (.ctx c) o) := by
  obtain ⟨hsp, hctx, hx, hv⟩ := returning_regs h
  obtain ⟨hsp', hx22, hx23, hx', hv', hsaved, hhost, hkeeps⟩ :=
    lfiCallbackEnd_spec (b := b) (j := k) ws hctx hsp h.frame habort
  let t := lfiCallbackEnd b ws s
  obtain ⟨n, hn⟩ := h.attached.saved
  obtain ⟨m, hm⟩ := h.entry.saved
  have hint : s.mem (.ptr (.ctx c) REGS_SP) = .int n := hn
  have hbox : ∀ n ∈ handlerSaved, t.x n = e.x n := by
    intro n hn
    rcases eq_or_ne n 22 with rfl | h22
    · exact hx22
    rcases eq_or_ne n 23 with rfl | h23
    · exact hx23
    have hmem : n ∈ [19, 20, 21, 24, 25, 26, 29] := by
      revert n
      decide
    exact (hx' n hmem).trans (hx n hmem)
  refine ⟨⟨hkeeps.attached (by decide) h.attached (hsaved.trans hm), ?_, n, hsp'.trans hint⟩,
    ?_, ?_, hsaved, hhost, fun i hi => hkeeps.stack hi, fun o ho => hkeeps.cell ho⟩
  · exact (hbox 25 (by decide)).trans h.entry.ctxReg
  · rw [hsp', hint]
    simp
  · exact map_append_lowLanes hbox fun i hi => (hv' i hi).trans (hv i hi)

/-! Returns from the sandbox. -/

theorem invoked_of (h : Transitions.Invoked (arch b clone) c th s k) :
    ∃ blk o, Invoked b s k blk o ∧ s.mem (.ptr blk o) = .ptr (.ctx c) 0 := by
  have hthread : s.thread = th := h.thread
  obtain ⟨blk, o, hctxp, hslot, -, -, hoff⟩ := h.slot
  rw [← hthread] at hctxp hoff
  refine ⟨blk, o, ⟨?_, hctxp, hoff⟩, hslot⟩
  rw [hthread]
  exact h.sp

/-- A return to the caller of the function entered in `e`. -/
theorem returns_of (he : e.sp = .ptr (.stack th) j) (hsp : t.sp = .ptr (.stack th) j)
    (hx : ∀ n ∈ calleeSaved, t.x n = e.x n)
    (hv : ∀ i ∈ calleeSavedV, (t.v i).1 = (e.v i).1) (hpc : t.pc = e.x 30) :
    Transitions.Returns (arch b clone) e t := by
  refine ⟨?_, map_append_lowLanes hx hv, hpc⟩
  change t.sp = e.sp.offset 0
  rw [hsp, he, Word.offset_ptr, Int.add_zero]

theorem law_ret (h : Transitions.InBox (arch b clone) c th s)
    (he : Transitions.Invoked (arch b clone) c th e j)
    (hhost : (arch b clone).hostSp c s = Transitions.hostStack th (j - 176))
    (hframe : s.mem.Holds (Transitions.hostStack th (j - 176)) (trampolineFrame c e)) :
    let t := lfiRet s
    Transitions.Attached (arch b clone) c th t ∧ Transitions.Returns (arch b clone) e t ∧
      t.mem (.ptr (.ctx c) REGS_SP) = e.mem (.ptr (.ctx c) REGS_SP) ∧
      (arch b clone).SameFrom th (j - 176) s t ∧
      ∀ o ∈ REGS_HOST_SP :: keptCells, t.mem (.ptr (.ctx c) o) = s.mem (.ptr (.ctx c) o) := by
  obtain ⟨-, hsys, -⟩ := attached_iff.mp h.toAttached
  obtain ⟨hsp, hx, hv, hpc, hsaved, hkeeps⟩ :=
    lfiRet_spec (j := j - 176) h.ctxReg hsys hhost he.sp hframe
  generalize lfiRet s = t at hsp hx hv hpc hsaved hkeeps ⊢
  obtain ⟨n, hn⟩ := he.saved
  have hint : e.mem (.ptr (.ctx c) REGS_SP) = .int n := hn
  exact ⟨hkeeps.attached (by decide) h.toAttached (hsaved.trans hint),
    returns_of he.sp hsp hx hv hpc, hsaved, fun i hi => hkeeps.stack hi,
    fun o ho => hkeeps.cell ho⟩

theorem law_abort (h : Transitions.Returning (arch b clone) c th (.callback ws) e k
      (lfiCallback ws) s) (habort : (arch b clone).Aborted c s) {e₀ : State}
    (he : Transitions.Invoked (arch b clone) c th e₀ j) (hk : k = j - 176)
    (hframe : s.mem.Holds (Transitions.hostStack th k) (trampolineFrame c e₀))
    (hhost : (arch b clone).hostSp c s = Transitions.hostStack th k) :
    let t := lfiCallbackEnd b ws s
    Transitions.Attached (arch b clone) c th t ∧ Transitions.Returns (arch b clone) e₀ t ∧
      t.mem (.ptr (.ctx c) REGS_SP) = e₀.mem (.ptr (.ctx c) REGS_SP) ∧
      t.mem (.ptr (.ctx c) REGS_HOST_SP) = Transitions.hostStack th k ∧
      (arch b clone).SameFrom th k s t ∧
      t.mem (.ptr (.ctx c) CTX_ABORT_CALLBACK) = .int 0#64 ∧
      t.mem (.ptr (.ctx c) CTX_ABORT_STATUS) = .int 1#64 := by
  obtain ⟨-, hctx, -⟩ := returning_regs h
  rw [hk] at hframe hhost ⊢
  obtain ⟨hsp, hx, hv, hpc, hsaved, hclear, hstatus, hkeeps⟩ :=
    lfiCallbackEnd_abort_spec (b := b) (j := j - 176) ws hctx habort hhost he.sp hframe
  obtain ⟨n, hn⟩ := he.saved
  have hint : e₀.mem (.ptr (.ctx c) REGS_SP) = .int n := hn
  exact ⟨hkeeps.attached (by decide) h.attached (hsaved.trans hint),
    returns_of he.sp hsp hx hv hpc, hsaved, (hkeeps.cell (by decide)).trans hhost,
    fun i hi => hkeeps.stack hi, hclear, hstatus⟩

/-! Invocations. -/

theorem commonSwitch_spec (hctx : s.x 13 = .ptr (.ctx c) 0) (hsp : s.sp = .ptr (.stack th) k) :
    let t := exec commonSwitch s
    t.sp = s.mem (.ptr (.ctx c) REGS_SP) ∧ t.x 25 = s.mem (.ptr (.ctx c) (REGS_X 25)) ∧
      t.mem (.ptr (.ctx c) REGS_HOST_SP) = .ptr (.stack th) (k - 16) ∧
      t.mem (.ptr (.stack th) (k - 16)) = s.mem (.ptr (.ctx c) REGS_SP) ∧
      t.mem (.ptr (.stack th) (k - 8)) = .int 0 ∧ Keeps c th k (REGS_SP :: keptCells) s t := by
  refine ⟨?_, ?_, ?_, ?_, ?_, ?_⟩
  case refine_6 =>
    apply keeps_of_writes [.ptr (.stack th) (k - 16), .ptr (.stack th) (k - 8),
      .ptr (.ctx c) REGS_HOST_SP] (thread_exec _ s)
    · intro a ha
      simp only [List.mem_cons, List.not_mem_nil, or_false, not_or, REGS_HOST_SP,
        Int.sub_eq_add_neg] at ha
      simp -implicitDefEqProofs [commonSwitch, exec1, hctx, hsp, ha, REGS_HOST_SP,
        Cells.set_apply, Int.add_assoc]
    · simp [keptCells, REGS_SP, REGS_X, REGS_HOST_SP, CTX_ABORT_CALLBACK, CTX_ABORT_STATUS]
  all_goals
    simp -implicitDefEqProofs [commonSwitch, exec1, hctx, hsp, REGS_HOST_SP, REGS_SP, REGS_X,
      Cells.set_apply, Int.sub_eq_add_neg, Int.add_assoc]

theorem lfiTrampolineCommon_spec (hctx : s.x 13 = .ptr (.ctx c) 0)
    (hsp : s.sp = .ptr (.stack th) k) :
    let t := lfiTrampolineCommon b s
    t.sp = s.mem (.ptr (.ctx c) REGS_SP) ∧ t.x 25 = s.mem (.ptr (.ctx c) (REGS_X 25)) ∧
      t.mem (.ptr (.ctx c) REGS_HOST_SP) = .ptr (.stack th) (k - 16) ∧
      t.mem (.ptr (.stack th) (k - 16)) = s.mem (.ptr (.ctx c) REGS_SP) ∧
      t.mem (.ptr (.stack th) (k - 8)) = .int 0 ∧ Keeps c th k (REGS_SP :: keptCells) s t := by
  obtain ⟨hsp₁, hx25, hhost, hsaved, hzero, hkeeps⟩ := commonSwitch_spec hctx hsp
  let s₁ := exec commonSwitch s
  let s₂ := if b.storesOnly then s₁ else exec zeroRegs s₁
  have hcleared : s₂.sp = s₁.sp ∧ s₂.x 25 = s₁.x 25 ∧ s₂.mem = s₁.mem ∧
      s₂.thread = s₁.thread := by
    unfold s₂
    cases b.storesOnly with
    | true => exact ⟨rfl, rfl, rfl, rfl⟩
    | false =>
        exact ⟨reg_exec (r := .sp) (by decide) s₁, x_exec (by decide) s₁, mem_exec (by decide) s₁,
          thread_exec _ s₁⟩
  obtain ⟨hsp₂, hx₂, hmem₂, hthread₂⟩ := hcleared
  have hmem : (lfiTrampolineCommon b s).mem = s₁.mem :=
    (mem_exec (by decide) s₂).trans hmem₂
  have hthread : (lfiTrampolineCommon b s).thread = s₁.thread :=
    (thread_exec _ s₂).trans hthread₂
  refine ⟨?_, ?_, ?_, ?_, ?_, hkeeps.trans (keeps_of_mem hthread hmem)⟩
  · exact (reg_exec (r := .sp) (by decide) s₂).trans (hsp₂.trans hsp₁)
  · exact (x_exec (by decide) s₂).trans (hx₂.trans hx25)
  · rw [hmem, hhost]
  · rw [hmem, hsaved]
  · rw [hmem, hzero]

variable (clone) in
/-- A trampoline with its context up to the code common to all. -/
theorem trampoline_atCommon {blk : Block} {o : Int} (ws : Bool) (h : Invoked b s k blk o)
    (hslot : s.mem (.ptr blk o) = .ptr (.ctx c) 0) :
    ∃ u, (arch b clone).lfiTrampoline ws s = lfiTrampolineCommon b u ∧
      u.x 13 = .ptr (.ctx c) 0 ∧ u.sp = .ptr (.stack s.thread) (k - 160) ∧
      u.thread = s.thread ∧ (∀ a, OffStack s k a → u.mem a = s.mem a) ∧
      u.mem.Holds (.ptr (.stack s.thread) (k - 160)) (trampolineSaved s) := by
  obtain ⟨hsp₁, hthread₁, hx20, hmem₁, -, hframe⟩ := trampolineEntry_spec h
  let s₁ := trampolineEntry b s
  have hslot₁ : s₁.mem (.ptr blk o) = .ptr (.ctx c) 0 := by
    rw [hmem₁ _ h.above, hslot]
  let s₂ := exec [.ldr (.x 13) (.x 20) 0] s₁
  have hlazy : lazyCtxClone clone s₁ = s₂ := lazyCtxClone_of_ne clone hx20 (by simp [hslot₁])
  have hctx₂ : s₂.x 13 = .ptr (.ctx c) 0 := by
    rw [← hslot₁]
    simp [s₂, exec1, s₁, hx20]
  let s₃ := if ws then exec loadStructArgs s₂ else s₂
  have hkept : s₃.x 13 = s₂.x 13 ∧ s₃.sp = s₁.sp ∧ s₃.thread = s₁.thread ∧ s₃.mem = s₁.mem := by
    unfold s₃
    cases ws with
    | false => exact ⟨rfl, rfl, rfl, rfl⟩
    | true =>
        exact ⟨x_exec (by decide) s₂, reg_exec (r := .sp) (by decide) s₂,
          (thread_exec _ s₂).trans (thread_exec _ s₁),
          (mem_exec (by decide) s₂).trans (mem_exec (by decide) s₁)⟩
  obtain ⟨hctx₃, hsp₃, hthread₃, hmem₃⟩ := hkept
  refine ⟨s₃, ?_, hctx₃.trans hctx₂, hsp₃.trans hsp₁, hthread₃.trans hthread₁, ?_, ?_⟩
  · unfold s₃
    cases ws with
    | false => exact congrArg (lfiTrampolineCommon b) hlazy
    | true => exact congrArg (fun u => lfiTrampolineCommon b (exec loadStructArgs u)) hlazy
  · intro a ha
    rw [hmem₃, hmem₁ a ha]
  · rw [hmem₃]
    exact hframe

theorem law_invoke (ws : Bool) (h : Transitions.Invoked (arch b clone) c th s k) :
    let t := (arch b clone).lfiTrampoline ws s
    Transitions.InBox (arch b clone) c th t ∧
      Transitions.Pushed (arch b clone) c th .invoke k s t ∧
      t.mem (.ptr (.ctx c) REGS_HOST_SP) = Transitions.hostStack th (k - 176) ∧
      ∀ o ∈ REGS_SP :: keptCells, t.mem (.ptr (.ctx c) o) = s.mem (.ptr (.ctx c) o) := by
  obtain ⟨blk, o, hinv, hslot⟩ := invoked_of h
  obtain ⟨u, heq, hctx, hsp, hthread, hmem, hframe⟩ :=
    trampoline_atCommon clone ws hinv hslot
  have hth : s.thread = th := h.thread
  rw [hth] at hsp hframe
  obtain ⟨hsp', hx25, hhost, hsaved, hzero, hkeeps⟩ :=
    lfiTrampolineCommon_spec (b := b) hctx hsp
  rw [heq]
  generalize lfiTrampolineCommon b u = t at hsp' hx25 hhost hsaved hzero hkeeps ⊢
  have hlink : s.mem (.ptr (.ctx c) (REGS_X 25)) = .ptr (.ctxBlock c) 0 :=
    h.linked (_, .ptr (.ctxBlock c) 0) (by simp [arch])
  have hsys : s.mem (.ptr (.ctxBlock c) SYS_CTX_OFFSET) = .ptr (.ctx c) 0 :=
    h.linked (_, .ptr (.ctx c) 0) (by simp [arch])
  obtain ⟨n, hn⟩ := h.saved
  have hint : s.mem (.ptr (.ctx c) REGS_SP) = .int n := hn
  have hcell : ∀ i, u.mem (.ptr (.ctx c) i) = s.mem (.ptr (.ctx c) i) := by
    intro i
    exact hmem _ (by intro j _; simp)
  have hcells : ∀ o ∈ REGS_SP :: keptCells, t.mem (.ptr (.ctx c) o) = s.mem (.ptr (.ctx c) o) :=
    fun o ho => (hkeeps.cell ho).trans (hcell o)
  refine ⟨⟨attached_iff.mpr ⟨?_, ?_, ?_, n, ?_⟩, ?_, n, ?_⟩, ⟨?_, ?_⟩, ?_, hcells⟩
  · rw [hkeeps.thread, hthread, hth]
  · rw [hkeeps.mem _ _ (by simp) (by simp), hmem _ (by intro j _; simp), hsys]
  · rw [hcells _ (by decide), hlink]
  · rw [hcells _ (by decide), hint]
  · change t.x 25 = .ptr (.ctxBlock c) 0
    rw [hx25, hcell, hlink]
  · change t.sp = .int n
    rw [hsp', hcell, hint]
  · change t.mem.Holds (.ptr (.stack th) (k - 176)) (trampolineFrame c s)
    have hlow : t.mem (.ptr (.stack th) (k - 176)) = s.mem (.ptr (.ctx c) REGS_SP) := by
      rw [← hcell, ← hsaved, show k - 160 - 16 = k - 176 by omega]
    have hnull : t.mem (.ptr (.stack th) (k - 168)) = .int 0 := by
      rw [← hzero, show k - 160 - 8 = k - 168 by omega]
    refine ⟨hlow, ?_, ?_⟩
    · rw [Word.offset_ptr, show k - 176 + 8 = k - 168 by omega, hnull]
    · rw [Word.offset_ptr, Word.offset_ptr, show k - 176 + 8 + 8 = k - 160 by omega]
      exact hkeeps.holds (le_refl _) hframe
  · intro i hi
    have hoff := hmem _ (offStack_of_le (s := s) hi)
    rw [hth] at hoff
    exact (hkeeps.stack (by omega)).trans hoff
  · rw [hhost, show k - 160 - 16 = k - 176 by omega]

/-! `lfi_ctx_run`. -/

theorem ctxEntrySave_spec (hsp : s.sp = .ptr (.stack th) k)
    (hctx : s.x 1 = .ptr (.ctx c) REGS_HOST_SP) :
    let t := exec ctxEntrySave s
    t.x 0 = s.x 0 ∧ t.mem (.ptr (.ctx c) REGS_HOST_SP) = .ptr (.stack th) (k - 176) ∧
      t.mem.Holds (.ptr (.stack th) (k - 176)) (ctxEntrySaved s) ∧
      Keeps c th k (REGS_SP :: keptCells) s t := by
  simp only [REGS_HOST_SP] at hctx
  refine ⟨?_, ?_, ?_, ?_⟩
  case refine_4 =>
    refine ⟨thread_exec _ s, fun d i hstack hcell => ?_⟩
    have hhost : Word.ptr d i ≠ .ptr (.ctx c) 0 := by
      rintro heq
      obtain ⟨rfl, rfl⟩ := Word.ptr.inj heq
      exact absurd (hcell rfl) (by decide)
    have hfree : ∀ j, j < k → Word.ptr d i ≠ .ptr (.stack th) j := by
      rintro j hj heq
      obtain ⟨rfl, rfl⟩ := Word.ptr.inj heq
      exact absurd (hstack rfl) (not_le.mpr hj)
    simp +contextual -implicitDefEqProofs [ctxEntrySave, exec1, hsp, hctx, hhost, hfree,
      Cells.set_apply, Int.add_assoc]
  all_goals
    simp -implicitDefEqProofs [ctxEntrySave, ctxEntrySaved, exec1, hsp, hctx, REGS_HOST_SP,
      Cells.Holds, Cells.set_apply, Int.sub_eq_add_neg, Int.add_assoc]

theorem lfiCtxEntry_spec (hctx : s.x 0 = .ptr (.ctx c) 0) (hsp : s.sp = .ptr (.stack th) k)
    (hhost : s.x 1 = .ptr (.ctx c) REGS_HOST_SP) :
    let t := lfiCtxEntry s
    t.sp = s.mem (.ptr (.ctx c) REGS_SP) ∧ t.x 25 = s.mem (.ptr (.ctx c) (REGS_X 25)) ∧
      t.mem (.ptr (.ctx c) REGS_HOST_SP) = .ptr (.stack th) (k - 176) ∧
      t.mem.Holds (.ptr (.stack th) (k - 176)) (ctxEntrySaved s) ∧
      Keeps c th k (REGS_SP :: keptCells) s t := by
  obtain ⟨hctx₁, hhost₁, hframe, hkeeps⟩ := ctxEntrySave_spec hsp hhost
  let s₁ := exec ctxEntrySave s
  have hctx₁ : s₁.x 0 = .ptr (.ctx c) 0 := hctx₁.trans hctx
  let s₂ := exec (ctxEntryLoad ++ zeroVs) s₁
  have hload : s₂.sp = s₁.mem (.ptr (.ctx c) REGS_SP) ∧
      s₂.x 25 = s₁.mem (.ptr (.ctx c) (REGS_X 25)) := by
    unfold s₂
    rw [exec_append]
    constructor
    · rw [← State.reg_sp, reg_exec (by decide)]
      simp -implicitDefEqProofs [ctxEntryLoad, exec1, hctx₁, REGS_X, REGS_SP]
    · rw [x_exec (by decide)]
      simp -implicitDefEqProofs [ctxEntryLoad, exec1, hctx₁, REGS_X]
  have hmem : (lfiCtxEntry s).mem = s₁.mem :=
    (mem_exec (by decide) s₂).trans (mem_exec (by decide) s₁)
  have hthread : (lfiCtxEntry s).thread = s₁.thread :=
    (thread_exec _ s₂).trans (thread_exec _ s₁)
  refine ⟨?_, ?_, ?_, ?_, hkeeps.trans (keeps_of_mem hthread hmem)⟩
  · rw [← hkeeps.cell (i := REGS_SP) (by decide), ← hload.1]
    exact reg_exec (r := .sp) (by decide) s₂
  · rw [← hkeeps.cell (i := REGS_X 25) (by decide), ← hload.2]
    exact x_exec (by decide) s₂
  · rw [hmem, hhost₁]
  · rw [hmem]
    exact hframe

theorem law_run (h : Transitions.Started (arch b clone) c th s k) :
    let t := lfiCtxEntry s
    Transitions.InBox (arch b clone) c th t ∧
      Transitions.Pushed (arch b clone) c th .run k s t ∧
      t.mem (.ptr (.ctx c) REGS_HOST_SP) = Transitions.hostStack th (k - 176) := by
  obtain ⟨-, -, hx25, n, hn⟩ := attached_iff.mp h.toAttached
  obtain ⟨hsp, hx25', hhost, hframe, hkeeps⟩ := lfiCtxEntry_spec h.arg0 h.sp h.arg1
  generalize lfiCtxEntry s = t at hsp hx25' hhost hframe hkeeps ⊢
  exact ⟨⟨hkeeps.attached (by decide) h.toAttached ((hkeeps.cell (by decide)).trans hn),
    hx25'.trans hx25, n, hsp.trans hn⟩, ⟨hframe, fun i hi => hkeeps.stack hi⟩, hhost⟩

theorem lfiCtxEnd_spec (hctx : s.x 0 = .ptr (.ctx c) 0)
    (hhost : s.mem (.ptr (.ctx c) REGS_HOST_SP) = .ptr (.stack th) (k - 176))
    (hsp : e.sp = .ptr (.stack th) k)
    (hframe : s.mem.Holds (.ptr (.stack th) (k - 176)) (ctxEntrySaved e)) :
    let t := exec lfiCtxEnd s
    t.sp = .ptr (.stack th) k ∧ (∀ n ∈ calleeSaved, t.x n = e.x n) ∧
      (∀ i ∈ calleeSavedV, (t.v i).1 = (e.v i).1) ∧ t.pc = e.x 30 := by
  simp only [Cells.Holds, ctxEntrySaved, Word.offset_ptr, Int.sub_eq_add_neg, Int.add_assoc,
    Int.reduceNeg, Int.reduceAdd] at hframe
  simp only [REGS_HOST_SP, Int.sub_eq_add_neg] at hhost
  refine ⟨?_, ?_, ?_, ?_⟩
  all_goals
    simp -implicitDefEqProofs [lfiCtxEnd, exec1, hctx, hhost, hsp, hframe, calleeSaved,
      calleeSavedV, authenticate, REGS_HOST_SP, Int.add_assoc]

theorem law_exit (h : Transitions.Attached (arch b clone) c th s)
    (harg : s.x 0 = .ptr (.ctx c) 0) (he : Transitions.Started (arch b clone) c th e j)
    (hhost : (arch b clone).hostSp c s = Transitions.hostStack th (j - 176))
    (hframe : s.mem.Holds (Transitions.hostStack th (j - 176)) (ctxEntrySaved e)) :
    let t := exec lfiCtxEnd s
    Transitions.Attached (arch b clone) c th t ∧ Transitions.Returns (arch b clone) e t ∧
      t.mem = s.mem := by
  have hmem : (exec lfiCtxEnd s).mem = s.mem := mem_exec (by decide) s
  have hthread : (exec lfiCtxEnd s).thread = s.thread := thread_exec _ s
  obtain ⟨hsp, hx, hv, hpc⟩ := lfiCtxEnd_spec harg hhost he.sp hframe
  generalize exec lfiCtxEnd s = t at hmem hthread hsp hx hv hpc ⊢
  refine ⟨?_, returns_of he.sp hsp hx hv hpc, hmem⟩
  rw [attached_iff] at h ⊢
  rw [hmem, hthread]
  exact h

/-! Runtime calls. -/

theorem lfiSyscallEntry_frame (hreg : s.x 25 = .ptr (.ctxBlock c) 0)
    (hsys : s.mem (.ptr (.ctxBlock c) SYS_CTX_OFFSET) = .ptr (.ctx c) 0)
    (hhost : s.mem (.ptr (.ctx c) REGS_HOST_SP) = .ptr (.stack th) k) :
    let t := lfiSyscallEntry s
    t.sp = .ptr (.stack th) (k - 16) ∧ t.x 25 = s.x 25 ∧
      t.mem (.ptr (.stack th) (k - 16)) = .ptr (.ctx c) 0 ∧
      t.mem (.ptr (.ctx c) REGS_SP) = s.sp ∧
      Keeps c th k (REGS_HOST_SP :: keptCells) s t := by
  let s₀ := exec [.mov REG_ADDR REG_BASE] s
  obtain ⟨hctx₁, hx₁, hmem₁⟩ := getCtx_spec (q := 27) (s := s₀) hreg hsys
  let s₁ := exec (getCtx REG_BASE) s₀
  obtain ⟨-, hsaved₂, -⟩ := syscallSave_spec hctx₁
  have hkeeps₂ : Keeps c th k (REGS_HOST_SP :: keptCells) s₁ (exec syscallSave s₁) :=
    keeps_saves (q := REG_BASE) hctx₁ (by decide) (by decide)
  let s₂ := exec syscallSave s₁
  have hctx₂ : s₂.x 27 = .ptr (.ctx c) 0 := (x_exec (by decide) s₁).trans hctx₁
  have hkeeps₁ : Keeps c th k (REGS_HOST_SP :: keptCells) s s₂ :=
    (keeps_of_mem ((thread_exec _ s₀).trans (thread_exec _ s)) hmem₁).trans hkeeps₂
  have hhost₂ : s₂.mem (.ptr (.ctx c) REGS_HOST_SP) = .ptr (.stack th) k :=
    (hkeeps₁.cell (by decide)).trans hhost
  have hlink : lfiSyscallEntry s = exec syscallCall s₂ := rfl
  have hcall : (exec syscallCall s₂).sp = .ptr (.stack th) (k - 16) ∧
      (exec syscallCall s₂).mem =
        s₂.mem.set (.ptr (.stack th) (k - 16)) (.ptr (.ctx c) 0) := by
    constructor <;>
      simp -implicitDefEqProofs [syscallCall, exec1, hctx₂, hhost₂, Int.sub_eq_add_neg]
  obtain ⟨hsp₃, hmem₃⟩ := hcall
  have hx25 : (lfiSyscallEntry s).x 25 = s.x 25 := by
    calc (exec syscallCall s₂).x 25 = s₂.x 25 := x_exec (by decide) s₂
      _ = s₁.x 25 := x_exec (by decide) s₁
      _ = s.x 25 := hx₁ 25 (by decide)
  rw [hlink] at hx25 ⊢
  refine ⟨hsp₃, hx25, ?_, ?_, hkeeps₁.trans ⟨thread_exec _ s₂, fun d i hstack _ => ?_⟩⟩
  · rw [hmem₃, Cells.set_self]
  · rw [hmem₃, Cells.set_of_ne _ (by simp)]
    exact hsaved₂
  · rw [hmem₃, Cells.set_of_ne]
    rintro heq
    obtain ⟨rfl, rfl⟩ := Word.ptr.inj heq
    have hle := hstack rfl
    omega

theorem law_syscall (h : Transitions.InBox (arch b clone) c th s)
    (hhost : (arch b clone).hostSp c s = Transitions.hostStack th k) :
    let t := lfiSyscallEntry s
    Transitions.Attached (arch b clone) c th t ∧
      Transitions.Pushed (arch b clone) c th .syscall k s t ∧
      t.sp = Transitions.hostStack th (k - 16) ∧
      t.mem (.ptr (.ctx c) REGS_HOST_SP) = s.mem (.ptr (.ctx c) REGS_HOST_SP) ∧
      t.x 25 = s.x 25 := by
  obtain ⟨-, hsys, -⟩ := attached_iff.mp h.toAttached
  obtain ⟨n, hn⟩ := h.boxSp
  obtain ⟨hsp, hx25, hctx, hsaved, hkeeps⟩ := lfiSyscallEntry_frame h.ctxReg hsys hhost
  generalize lfiSyscallEntry s = t at hsp hx25 hctx hsaved hkeeps ⊢
  exact ⟨hkeeps.attached (by decide) h.toAttached (hsaved.trans hn),
    ⟨⟨hctx, trivial⟩, fun i hi => hkeeps.stack hi⟩, hsp, hkeeps.cell (by decide), hx25⟩

theorem law_syscallEnd (h : Transitions.Returning (arch b clone) c th .syscall e k
      lfiSyscallEntry s) :
    let t := lfiSyscallEnd s
    Transitions.InBox (arch b clone) c th t ∧ t.mem = s.mem := by
  obtain ⟨hthread, -, -, n, hn⟩ := attached_iff.mp h.attached
  obtain ⟨-, -, -, -, hentry⟩ := law_syscall h.entry h.entrySp
  have hkept : s.x 25 = (lfiSyscallEntry e).x 25 := (of_kept h.kept).1 25 (by decide)
  have hctxReg : s.x 25 = .ptr (.ctxBlock c) 0 := hkept.trans (hentry.trans h.entry.ctxReg)
  have hsp : s.sp = .ptr (.stack th) (k - 16 + 0) := h.sp
  rw [Int.add_zero] at hsp
  have hhandled : Handled c k s := by
    refine ⟨?_, ?_⟩
    · rw [hthread, hsp]
    · rw [hthread]
      exact h.frame.1
  obtain ⟨-, -, hkept', hsp', -⟩ := lfiSyscallEnd_spec hhandled
  have hmem : (lfiSyscallEnd s).mem = s.mem := by
    rw [lfiSyscallEnd, mem_exec (by decide), mem_exec (by decide), mem_exec (by decide)]
  have hthread' : (lfiSyscallEnd s).thread = s.thread := by
    rw [lfiSyscallEnd, thread_exec, thread_exec, thread_exec]
  generalize lfiSyscallEnd s = t at hkept' hsp' hmem hthread' ⊢
  refine ⟨⟨?_, (hkept' 25 (by decide)).trans hctxReg, n, hsp'.trans hn⟩, hmem⟩
  have hatt := h.attached
  rw [attached_iff] at hatt ⊢
  rw [hmem, hthread']
  exact hatt

theorem lawful (b : Build) (clone : HostFn) (c th : Nat) : (arch b clone).Lawful c th where
  linkCells p hp := by
    simp only [arch, List.append_nil, List.mem_cons, List.not_mem_nil, or_false] at hp
    rcases hp with rfl | rfl
    · exact ⟨_, _, rfl, fun h => absurd h.2 (by decide)⟩
    · exact ⟨_, _, rfl, fun h => Block.noConfusion h.1⟩
  size_pos kind := by cases kind <;> simp [arch]
  size_le kind e hkind := by
    cases kind with
    | invoke => exact (by decide : (176 : Int) ≤ 8 * 22)
    | run => exact (by decide : (176 : Int) ≤ 8 * 22)
    | callback ws => cases hkind
    | syscall => cases hkind
  le_size kind e hkind := by
    cases kind with
    | invoke => exact absurd rfl hkind
    | run => exact absurd rfl hkind
    | callback ws => exact (by decide : (8 * 4 : Int) ≤ 32)
    | syscall => exact (by decide : (8 * 1 : Int) ≤ 16)
  invoke ws s k h := by
    obtain ⟨hbox, hpush, hhost, -⟩ := law_invoke ws h
    exact ⟨hbox, hpush, hhost⟩
  ret s e k h he hhost hframe := by
    obtain ⟨hatt, hret, hsaved, hsame, hcells⟩ := law_ret h he hhost hframe
    exact ⟨hatt, hret, hsaved, hcells REGS_HOST_SP (by decide), hsame⟩
  callback ws s k h hhost := by
    obtain ⟨hatt, hpush, hsp, hsaved, hhost', -⟩ := law_callback ws h hhost
    exact ⟨hatt, hpush, hsp, hsaved, hhost'⟩
  callbackEnd ws s e k h habort := by
    obtain ⟨hbox, hsp, hkept, hsaved, hhost, hsame, -⟩ := law_callbackEnd h habort
    exact ⟨hbox, hsp, hkept, hsaved, hhost, hsame⟩
  abort ws s e k e₀ k₀ h habort he hk hframe hhost := by
    obtain ⟨hatt, hret, hsaved, hhost', hsame, hclear, -⟩ :=
      law_abort h habort he hk hframe (hhost rfl)
    exact ⟨hatt, hret, hsaved, hhost', hsame, hclear⟩
  syscall s k h hhost := by
    obtain ⟨hatt, hpush, hsp, hhost', -⟩ := law_syscall h hhost
    exact ⟨hatt, hpush, hsp, hhost'⟩
  syscallEnd s e k h := by
    obtain ⟨hbox, hmem⟩ := law_syscallEnd h
    exact ⟨hbox, congrFun hmem (.ptr (.ctx c) REGS_HOST_SP),
      fun i _ => congrFun hmem (Transitions.hostStack th i)⟩
  run s k h := law_run h
  exit s e k h harg he hhost hframe := by
    obtain ⟨hatt, hret, hmem⟩ := law_exit h harg he hhost hframe
    exact ⟨hatt, hret, congrFun hmem (.ptr (.ctx c) REGS_HOST_SP),
      fun i _ => congrFun hmem (Transitions.hostStack th i)⟩

end LfiRuntime.Arm64
