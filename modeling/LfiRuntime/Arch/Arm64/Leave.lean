import LfiRuntime.Arch.Arm64.Enter
import LfiRuntime.Arch.Arm64.Callback

/-!
What the code between sandbox and host functions does: callbacks and the
returns from the sandbox.
-/

namespace LfiRuntime.Arm64

open LfiRuntime.BlockMemory
open LfiRuntime.Layout

variable {b : Build} {s t u e : State} {c th : Nat} {k j : Int} {keep : List Int}

/-- What transition code leaves alone: the host stack from `k` up, some cells of
the context, and what is outside of both. -/
structure Keeps (c th : Nat) (k : Int) (keep : List Int) (s t : State) : Prop where
  thread : t.thread = s.thread
  mem : ∀ d i, (d = .stack th → k ≤ i) → (d = .ctx c → i ∈ keep) →
    t.mem (.ptr d i) = s.mem (.ptr d i)

/-- The cells of the context that link it to the sandbox, and the flags of
aborted callbacks. -/
def keptCells : List Int := [REGS_X 25, CTX_ABORT_CALLBACK, CTX_ABORT_STATUS]

theorem Keeps.trans (h : Keeps c th k keep s t) (h' : Keeps c th k keep t u) :
    Keeps c th k keep s u := by
  refine ⟨h'.thread.trans h.thread, ?_⟩
  intro d i hstack hctx
  rw [h'.mem d i hstack hctx, h.mem d i hstack hctx]

theorem keeps_of_mem (hthread : t.thread = s.thread) (hmem : t.mem = s.mem) :
    Keeps c th k keep s t :=
  ⟨hthread, fun _ _ _ _ => congrFun hmem _⟩

/-- Code with a list of the cells it writes. -/
theorem keeps_of_writes (ws : List W) (hthread : t.thread = s.thread)
    (hmem : ∀ a, a ∉ ws → t.mem a = s.mem a)
    (hws : ∀ a ∈ ws, ∃ d i, a = .ptr d i ∧
      ((d = .stack th ∧ i < k) ∨ (d = .ctx c ∧ i ∉ keep))) :
    Keeps c th k keep s t := by
  refine ⟨hthread, ?_⟩
  intro d i hstack hctx
  apply hmem
  intro hin
  obtain ⟨d', i', heq, ⟨hd, hi⟩ | ⟨hd, hi⟩⟩ := hws _ hin
  · obtain ⟨rfl, rfl⟩ := Word.ptr.inj heq
    exact absurd (hstack hd) (not_le.mpr hi)
  · obtain ⟨rfl, rfl⟩ := Word.ptr.inj heq
    exact hi (hctx hd)

/-- Saves of registers into the context. -/
theorem keeps_saves {is : List Instr} {q : Reg} (hq : s.reg q = .ptr (.ctx c) 0)
    (hreg : ∀ i ∈ is, q ∉ i.regs) (his : ∀ i ∈ is, i.storesOutside q keep = true) :
    Keeps c th k keep s (exec is s) :=
  ⟨thread_exec _ s, fun _ _ _ hctx => mem_exec_of_storesOutside hq hreg his hctx⟩

theorem Keeps.stack (h : Keeps c th k keep s t) {i : Int} (hi : k ≤ i) :
    t.mem (.ptr (.stack th) i) = s.mem (.ptr (.stack th) i) :=
  h.mem _ i (fun _ => hi) (by simp)

theorem Keeps.cell (h : Keeps c th k keep s t) {i : Int} (hi : i ∈ keep) :
    t.mem (.ptr (.ctx c) i) = s.mem (.ptr (.ctx c) i) :=
  h.mem _ i (by simp) fun _ => hi

theorem Keeps.mono (h : Keeps c th k keep s t) {keep' : List Int}
    (hsub : ∀ i ∈ keep', i ∈ keep) : Keeps c th k keep' s t :=
  ⟨h.thread, fun d i hstack hctx => h.mem d i hstack fun hd => hsub i (hctx hd)⟩

theorem Keeps.holds (h : Keeps c th k keep s t) {o : Int} (hk : k ≤ o) {ws : List W}
    (hs : s.mem.Holds (.ptr (.stack th) o) ws) : t.mem.Holds (.ptr (.stack th) o) ws :=
  hs.congr fun _ hi => h.stack (hk.trans hi)

/-! Callbacks. -/

theorem getCtx_spec {q : Fin 31} (hreg : s.x 25 = .ptr (.ctxBlock c) 0)
    (hsys : s.mem (.ptr (.ctxBlock c) SYS_CTX_OFFSET) = .ptr (.ctx c) 0) :
    let t := exec (getCtx (.x q)) s
    t.x q = .ptr (.ctx c) 0 ∧ (∀ n, n ≠ q → t.x n = s.x n) ∧ t.mem = s.mem := by
  refine ⟨?_, ?_, ?_⟩
  · simp [getCtx, exec1, hreg, hsys]
  · intro n hn
    exact x_exec (by simp [getCtx, Instr.regs, hn]) s
  · simp [getCtx, exec1]

theorem callbackTarget_spec (hreg : s.x 25 = .ptr (.ctxBlock c) 0)
    (hsys : s.mem (.ptr (.ctxBlock c) SYS_CTX_OFFSET) = .ptr (.ctx c) 0) :
    let t := exec callbackTarget s
    t.x 9 = .ptr (.ctx c) 0 ∧ (∀ n ∉ [9, 16, 27, 28], t.x n = s.x n) ∧ t.sp = s.sp ∧
      t.v = s.v ∧ t.mem = s.mem := by
  refine ⟨?_, ?_, ?_, ?_, ?_⟩
  · simp [callbackTarget, getCtx, exec1, hreg, hsys]
  · intro n hn
    exact x_exec (by simpa [callbackTarget, getCtx, Instr.regs] using hn) s
  · simp [callbackTarget, getCtx, exec1]
  · simp [callbackTarget, getCtx, exec1]
  · simp [callbackTarget, getCtx, exec1]

/-- What a callback saves on the host stack. -/
def callbackFrame (c : Nat) (s : State) : List W :=
  [s.x 22, s.x 23, s.mem (.ptr (.ctx c) REGS_SP), s.x 30]

theorem callbackSwitch_spec (hctx : s.x 9 = .ptr (.ctx c) 0)
    (hhost : s.mem (.ptr (.ctx c) REGS_HOST_SP) = .ptr (.stack th) k) :
    let t := exec callbackSwitch s
    t.sp = .ptr (.stack th) (k - 32) ∧ t.x 22 = .ptr (.ctx c) 0 ∧
      (∀ n ∉ [11, 12, 18, 22, 23], t.x n = s.x n) ∧ t.v = s.v ∧
      t.mem.Holds (.ptr (.stack th) (k - 32)) (callbackFrame c s) ∧
      t.mem (.ptr (.ctx c) REGS_SP) = s.sp ∧
      t.mem (.ptr (.ctx c) REGS_HOST_SP) = .ptr (.stack th) k ∧ Keeps c th k keptCells s t := by
  simp only [REGS_HOST_SP] at hhost
  refine ⟨?_, ?_, ?_, ?_, ?_, ?_, ?_, ?_⟩
  case refine_3 =>
    intro n hn
    exact x_exec (by revert n; decide) s
  case refine_8 =>
    apply keeps_of_writes [.ptr (.ctx c) REGS_SP, .ptr (.stack th) (k - 16),
      .ptr (.stack th) (k - 8), .ptr (.stack th) (k - 32), .ptr (.stack th) (k - 24)]
      (thread_exec _ s)
    · intro a ha
      simp only [List.mem_cons, List.not_mem_nil, or_false, not_or, REGS_SP,
        Int.sub_eq_add_neg] at ha
      simp -implicitDefEqProofs [callbackSwitch, exec1, hctx, hhost, ha, REGS_HOST_SP, REGS_SP,
        Cells.set_apply, Int.add_assoc]
    · simp [keptCells, REGS_SP, REGS_X, CTX_ABORT_CALLBACK, CTX_ABORT_STATUS]
  all_goals
    simp -implicitDefEqProofs [callbackSwitch, callbackFrame, exec1, hctx, hhost, REGS_HOST_SP,
      REGS_SP, Cells.set_apply, Cells.Holds, Int.sub_eq_add_neg, Int.add_assoc]

/-- A callback saves what it will need again below the host stack pointer that
it finds in the context, and keeps the context in `x22`. -/
theorem lfiCallback_spec (ws : Bool) (hreg : s.x 25 = .ptr (.ctxBlock c) 0)
    (hsys : s.mem (.ptr (.ctxBlock c) SYS_CTX_OFFSET) = .ptr (.ctx c) 0)
    (hhost : s.mem (.ptr (.ctx c) REGS_HOST_SP) = .ptr (.stack th) k) :
    let t := lfiCallback ws s
    t.sp = .ptr (.stack th) (k - 32) ∧ t.x 22 = .ptr (.ctx c) 0 ∧
      (∀ n ∈ [19, 20, 21, 24, 25, 26, 29], t.x n = s.x n) ∧ t.v = s.v ∧
      t.mem.Holds (.ptr (.stack th) (k - 32)) (callbackFrame c s) ∧
      t.mem (.ptr (.ctx c) REGS_SP) = s.sp ∧
      t.mem (.ptr (.ctx c) REGS_HOST_SP) = .ptr (.stack th) k ∧ Keeps c th k keptCells s t := by
  obtain ⟨hctx₁, hx₁, hsp₁, hv₁, hmem₁⟩ := callbackTarget_spec hreg hsys
  let s₁ := exec callbackTarget s
  let s₂ := if ws then exec saveStructArgs s₁ else s₁
  have hreg₂ : s₂.x = s₁.x ∧ s₂.sp = s₁.sp ∧ s₂.v = s₁.v := by
    unfold s₂
    cases ws with
    | false => exact ⟨rfl, rfl, rfl⟩
    | true =>
        refine ⟨?_, ?_, ?_⟩
        · funext n
          exact x_exec (by simp [saveStructArgs, Instr.regs]) s₁
        · exact reg_exec (r := .sp) (by simp [saveStructArgs, Instr.regs]) s₁
        · funext i
          exact v_exec (by simp [saveStructArgs, Instr.vs]) s₁
  have hkeeps₂ : Keeps c th k (REGS_HOST_SP :: REGS_SP :: keptCells) s₁ s₂ := by
    unfold s₂
    cases ws with
    | false => exact keeps_of_mem rfl rfl
    | true => exact keeps_saves (q := .x 9) hctx₁ (by decide) (by decide)
  have hcell : ∀ i ∈ REGS_HOST_SP :: REGS_SP :: keptCells,
      s₂.mem (.ptr (.ctx c) i) = s.mem (.ptr (.ctx c) i) := by
    intro i hi
    rw [hkeeps₂.cell hi]
    exact congrFun hmem₁ _
  obtain ⟨hsp₃, hx22, hx₃, hv₃, hframe₃, hsaved₃, hhost₃, hkeeps₃⟩ := callbackSwitch_spec
    ((congrFun hreg₂.1 9).trans hctx₁) ((hcell _ (by decide)).trans hhost)
  let s₃ := exec callbackSwitch s₂
  have hlink : lfiCallback ws s = exec [.blr (.x 16) .callback] s₃ := rfl
  have hx : ∀ n ∉ [9, 11, 12, 16, 18, 22, 23, 27, 28], s₃.x n = s.x n := by
    intro n hn
    calc s₃.x n = s₂.x n := hx₃ n (by revert n; decide)
      _ = s₁.x n := congrFun hreg₂.1 n
      _ = s.x n := hx₁ n (by revert n; decide)
  have hframe : callbackFrame c s₂ = callbackFrame c s := by
    have hregs : ∀ n ∈ [22, 23, 30], s₂.x n = s.x n := by
      intro n hn
      exact (congrFun hreg₂.1 n).trans (hx₁ n (by revert n; decide))
    rw [callbackFrame, callbackFrame, hregs 22 (by decide), hregs 23 (by decide),
      hregs 30 (by decide), hcell _ (by decide)]
  rw [hlink]
  refine ⟨?_, ?_, ?_, ?_, ?_, ?_, ?_, ?_⟩
  · rw [← hsp₃]
    rfl
  · rw [← hx22]
    exact x_exec (by decide) s₃
  · intro n hn
    rw [x_exec (by revert n; decide), hx n (by revert n; decide)]
  · exact hv₃.trans (hreg₂.2.2.trans hv₁)
  · rw [← hframe]
    exact hframe₃
  · exact hsaved₃.trans (hreg₂.2.1.trans hsp₁)
  · exact hhost₃
  · have hkeeps : Keeps c th k keptCells s s₂ := by
      refine ⟨hkeeps₂.thread.trans (thread_exec _ s), fun d i hstack hctx => ?_⟩
      rw [hkeeps₂.mem d i hstack fun hd => ?_]
      · exact congrFun hmem₁ _
      · exact List.mem_cons_of_mem _ (List.mem_cons_of_mem _ (hctx hd))
    exact (hkeeps.trans hkeeps₃).trans
      (keeps_of_mem (thread_exec _ s₃) (mem_exec (by decide) s₃))

/-- What comes back from the host function. -/
theorem callbackCheck_spec (hctx : s.x 22 = .ptr (.ctx c) 0) :
    let t := exec callbackCheck s
    t.x 9 = .ptr (.ctx c) 0 ∧ t.x 10 = s.mem (.ptr (.ctx c) CTX_ABORT_CALLBACK) ∧
      (∀ n ∉ [9, 10, 18], t.x n = s.x n) ∧ t.sp = s.sp ∧ t.v = s.v ∧ t.mem = s.mem := by
  refine ⟨?_, ?_, ?_, ?_, ?_, ?_⟩
  case refine_3 =>
    intro n hn
    exact x_exec (by revert n; decide) s
  all_goals simp [callbackCheck, exec1, hctx]

theorem callbackReturn_spec {p q w v : W} (hctx : s.x 9 = .ptr (.ctx c) 0)
    (hsp : s.sp = .ptr (.stack th) (k - 32))
    (hframe : s.mem.Holds (.ptr (.stack th) (k - 32)) [p, q, w, v]) :
    let t := exec callbackReturn s
    t.sp = s.mem (.ptr (.ctx c) REGS_SP) ∧ t.x 22 = p ∧ t.x 23 = q ∧ t.x 30 = v ∧
      (∀ n ∉ [11, 12, 22, 23, 30], t.x n = s.x n) ∧ t.v = s.v ∧
      t.mem (.ptr (.ctx c) REGS_SP) = w ∧
      t.mem (.ptr (.ctx c) REGS_HOST_SP) = .ptr (.stack th) k ∧ Keeps c th j keptCells s t := by
  simp only [Cells.Holds, Word.offset_ptr, Int.sub_eq_add_neg, Int.add_assoc, Int.reduceNeg,
    Int.reduceAdd] at hframe hsp
  refine ⟨?_, ?_, ?_, ?_, ?_, ?_, ?_, ?_, ?_⟩
  case refine_5 =>
    intro n hn
    exact x_exec (by revert n; decide) s
  case refine_9 =>
    apply keeps_of_writes [.ptr (.ctx c) REGS_SP, .ptr (.ctx c) REGS_HOST_SP] (thread_exec _ s)
    · intro a ha
      simp only [List.mem_cons, List.not_mem_nil, or_false, not_or, REGS_SP, REGS_HOST_SP] at ha
      simp -implicitDefEqProofs [callbackReturn, exec1, hctx, hsp, ha, REGS_SP, REGS_HOST_SP,
        Cells.set_apply]
    · simp [keptCells, REGS_SP, REGS_HOST_SP, REGS_X, CTX_ABORT_CALLBACK, CTX_ABORT_STATUS]
  all_goals
    simp -implicitDefEqProofs [callbackReturn, exec1, hctx, hsp, hframe, REGS_SP, REGS_HOST_SP,
      Cells.set_apply, Int.add_assoc]

/-- After the stacks are switched back nothing is left but to clear registers. -/
theorem callbackTail_spec (b : Build) (s : State) :
    let t := exec [.mov REG_ADDR REG_BASE, .addUxtw (.x 30) REG_BASE (.x 30), .ret]
      (if b.storesOnly then s else exec zeroCallerRegs s)
    (∀ n ∈ [19, 20, 21, 22, 23, 24, 25, 26, 29], t.x n = s.x n) ∧
      (∀ i ∈ calleeSavedV, (t.v i).1 = (s.v i).1) ∧ t.sp = s.sp ∧ t.mem = s.mem ∧
      t.thread = s.thread := by
  let s₁ := if b.storesOnly then s else exec zeroCallerRegs s
  have hx : ∀ n ∈ [19, 20, 21, 22, 23, 24, 25, 26, 29], s₁.x n = s.x n := by
    intro n hn
    unfold s₁
    cases b.storesOnly with
    | true => rfl
    | false => exact x_exec (by revert n; decide) s
  have hv : ∀ i ∈ calleeSavedV, (s₁.v i).1 = (s.v i).1 := by
    unfold s₁
    cases b.storesOnly with
    | true => exact fun _ _ => rfl
    | false => simp [zeroCallerRegs, calleeSavedV, exec1]
  have hsp : s₁.sp = s.sp := by
    unfold s₁
    cases b.storesOnly with
    | true => rfl
    | false => exact reg_exec (r := .sp) (by decide) s
  have hmem : s₁.mem = s.mem := by
    unfold s₁
    cases b.storesOnly with
    | true => rfl
    | false => exact mem_exec (by decide) s
  have hthread : s₁.thread = s.thread := by
    unfold s₁
    cases b.storesOnly with
    | true => rfl
    | false => exact thread_exec _ s
  refine ⟨?_, ?_, ?_, ?_, ?_⟩
  · intro n hn
    rw [← hx n hn]
    exact x_exec (by revert n; decide) s₁
  · intro i hi
    rw [← hv i hi]
    exact congrArg Prod.fst (v_exec (by simp [Instr.vs]) s₁)
  · exact (reg_exec (r := .sp) (by decide) s₁).trans hsp
  · exact (mem_exec (by decide) s₁).trans hmem
  · exact (thread_exec _ s₁).trans hthread

/-- The results of a callback with a structure. -/
theorem loadResults_spec (ws : Bool) (s : State) :
    let t := if ws then exec loadStructResults s else s
    (∀ n ∉ [0, 1, 8], t.x n = s.x n) ∧ (∀ i ∈ calleeSavedV, t.v i = s.v i) ∧ t.sp = s.sp ∧
      t.mem = s.mem ∧ t.thread = s.thread := by
  cases ws with
  | false => exact ⟨fun _ _ => rfl, fun _ _ => rfl, rfl, rfl, rfl⟩
  | true =>
      refine ⟨?_, ?_, ?_, ?_, thread_exec _ s⟩
      · intro n hn
        exact x_exec (by revert n; decide) s
      · intro i hi
        exact v_exec (by revert i; decide) s
      · exact reg_exec (r := .sp) (by decide) s
      · exact mem_exec (by decide) s

/-- The callback goes back to the sandbox. -/
theorem lfiCallbackEnd_spec (ws : Bool) {p q w v : W} (hctx : s.x 22 = .ptr (.ctx c) 0)
    (hsp : s.sp = .ptr (.stack th) (k - 32))
    (hframe : s.mem.Holds (.ptr (.stack th) (k - 32)) [p, q, w, v])
    (habort : s.mem (.ptr (.ctx c) CTX_ABORT_CALLBACK) ≠ .int 1#64) :
    let t := lfiCallbackEnd b ws s
    t.sp = s.mem (.ptr (.ctx c) REGS_SP) ∧ t.x 22 = p ∧ t.x 23 = q ∧
      (∀ n ∈ [19, 20, 21, 24, 25, 26, 29], t.x n = s.x n) ∧
      (∀ i ∈ calleeSavedV, (t.v i).1 = (s.v i).1) ∧ t.mem (.ptr (.ctx c) REGS_SP) = w ∧
      t.mem (.ptr (.ctx c) REGS_HOST_SP) = .ptr (.stack th) k ∧ Keeps c th j keptCells s t := by
  obtain ⟨hctx₁, hflag, hx₁, hsp₁, hv₁, hmem₁⟩ := callbackCheck_spec hctx
  let s₁ := exec callbackCheck s
  obtain ⟨hx₂, hv₂, hsp₂, hmem₂, hthread₂⟩ := loadResults_spec ws s₁
  let s₂ := if ws then exec loadStructResults s₁ else s₁
  have hmem : s₂.mem = s.mem := hmem₂.trans hmem₁
  obtain ⟨hsp₃, hx22, hx23, -, hx₃, hv₃, hsaved, hhost, hkeeps⟩ := callbackReturn_spec (j := j)
    ((hx₂ 9 (by decide)).trans hctx₁) (hsp₂.trans (hsp₁.trans hsp)) (by rwa [hmem])
  let s₃ := exec callbackReturn s₂
  obtain ⟨hx₄, hv₄, hsp₄, hmem₄, hthread₄⟩ := callbackTail_spec b s₃
  have hback : lfiCallbackEnd b ws s =
      exec [.mov REG_ADDR REG_BASE, .addUxtw (.x 30) REG_BASE (.x 30), .ret]
        (if b.storesOnly then s₃ else exec zeroCallerRegs s₃) := by
    have hne : ¬s₁.x 10 = .int 1 := by
      rw [hflag]
      exact habort
    exact if_neg hne
  rw [hback]
  refine ⟨?_, ?_, ?_, ?_, ?_, ?_, ?_, ?_⟩
  · rw [hsp₄, hsp₃, hmem]
  · rw [hx₄ _ (by decide), hx22]
  · rw [hx₄ _ (by decide), hx23]
  · intro n hn
    calc _ = s₃.x n := hx₄ n (by revert n; decide)
      _ = s₂.x n := hx₃ n (by revert n; decide)
      _ = s₁.x n := hx₂ n (by revert n; decide)
      _ = s.x n := hx₁ n (by revert n; decide)
  · intro i hi
    calc _ = (s₃.v i).1 := hv₄ i hi
      _ = (s₂.v i).1 := by rw [hv₃]
      _ = (s₁.v i).1 := by rw [hv₂ i hi]
      _ = (s.v i).1 := by rw [hv₁]
  · rw [hmem₄, hsaved]
  · rw [hmem₄, hhost]
  · have hkeeps₂ : Keeps c th j keptCells s s₂ :=
      keeps_of_mem (hthread₂.trans (thread_exec _ s)) hmem
    exact (hkeeps₂.trans hkeeps).trans (keeps_of_mem hthread₄ hmem₄)

/-! Returns from the sandbox. -/

/-- What a trampoline leaves, from the host stack pointer in the context up. -/
def trampolineFrame (c : Nat) (s : State) : List W :=
  s.mem (.ptr (.ctx c) REGS_SP) :: .int 0 :: trampolineSaved s

/-- `.lfi_ret_internal` undoes the trampoline entered in `e`. -/
theorem lfiRetInternal_spec (hctx : s.x 27 = .ptr (.ctx c) 0)
    (hhost : s.mem (.ptr (.ctx c) REGS_HOST_SP) = .ptr (.stack th) (k - 176))
    (hsp : e.sp = .ptr (.stack th) k)
    (hframe : s.mem.Holds (.ptr (.stack th) (k - 176)) (trampolineFrame c e)) :
    let t := exec lfiRetInternal s
    t.sp = .ptr (.stack th) k ∧ (∀ n ∈ calleeSaved, t.x n = e.x n) ∧
      (∀ i ∈ calleeSavedV, (t.v i).1 = (e.v i).1) ∧ t.pc = e.x 30 ∧
      t.mem (.ptr (.ctx c) REGS_SP) = e.mem (.ptr (.ctx c) REGS_SP) ∧
      Keeps c th j (REGS_HOST_SP :: keptCells) s t := by
  simp only [Cells.Holds, trampolineFrame, trampolineSaved, Word.offset_ptr, Int.sub_eq_add_neg,
    Int.add_assoc, Int.reduceNeg, Int.reduceAdd] at hframe
  simp only [REGS_HOST_SP, Int.sub_eq_add_neg] at hhost
  refine ⟨?_, ?_, ?_, ?_, ?_, ?_⟩
  case refine_6 =>
    apply keeps_of_writes [.ptr (.ctx c) (REGS_X 0), .ptr (.ctx c) (REGS_X 1),
      .ptr (.ctx c) (REGS_X 8), .ptr (.ctx c) (REGS_V 0), .ptr (.ctx c) (REGS_V 1),
      .ptr (.ctx c) REGS_SP] (thread_exec _ s)
    · intro a ha
      simp [REGS_X, REGS_V, REGS_SP] at ha
      simp -implicitDefEqProofs [lfiRetInternal, exec1, hctx, ha, REGS_X, REGS_V, REGS_SP,
        Cells.set_apply]
    · simp [keptCells, REGS_SP, REGS_X, REGS_V, REGS_HOST_SP, CTX_ABORT_CALLBACK,
        CTX_ABORT_STATUS]
  all_goals
    simp -implicitDefEqProofs [lfiRetInternal, exec1, hctx, hhost, hsp, hframe, calleeSaved,
      calleeSavedV, authenticate, REGS_HOST_SP, REGS_X, REGS_V, REGS_SP, Cells.set_apply,
      Int.add_assoc]

theorem lfiRet_spec (hreg : s.x 25 = .ptr (.ctxBlock c) 0)
    (hsys : s.mem (.ptr (.ctxBlock c) SYS_CTX_OFFSET) = .ptr (.ctx c) 0)
    (hhost : s.mem (.ptr (.ctx c) REGS_HOST_SP) = .ptr (.stack th) (k - 176))
    (hsp : e.sp = .ptr (.stack th) k)
    (hframe : s.mem.Holds (.ptr (.stack th) (k - 176)) (trampolineFrame c e)) :
    let t := lfiRet s
    t.sp = .ptr (.stack th) k ∧ (∀ n ∈ calleeSaved, t.x n = e.x n) ∧
      (∀ i ∈ calleeSavedV, (t.v i).1 = (e.v i).1) ∧ t.pc = e.x 30 ∧
      t.mem (.ptr (.ctx c) REGS_SP) = e.mem (.ptr (.ctx c) REGS_SP) ∧
      Keeps c th j (REGS_HOST_SP :: keptCells) s t := by
  obtain ⟨hctx, -, hmem⟩ := getCtx_spec (q := 27) hreg hsys
  rw [← hmem] at hhost hframe
  obtain ⟨hsp', hx, hv, hpc, hsaved, hkeeps⟩ :=
    lfiRetInternal_spec (j := j) hctx hhost hsp hframe
  exact ⟨hsp', hx, hv, hpc, hsaved, (keeps_of_mem (thread_exec _ s) hmem).trans hkeeps⟩

variable (th) in
theorem callbackAbort_spec (hctx : s.x 9 = .ptr (.ctx c) 0) :
    let t := exec callbackAbort s
    t.x 0 = .ptr (.ctx c) 0 ∧ t.mem (.ptr (.ctx c) CTX_ABORT_CALLBACK) = .int 0#64 ∧
      t.mem (.ptr (.ctx c) CTX_ABORT_STATUS) = .int 1#64 ∧
      Keeps c th j [REGS_X 25, REGS_HOST_SP] s t := by
  refine ⟨?_, ?_, ?_, ?_⟩
  case refine_4 =>
    apply keeps_of_writes [.ptr (.ctx c) CTX_ABORT_CALLBACK, .ptr (.ctx c) CTX_ABORT_STATUS]
      (thread_exec _ s)
    · intro a ha
      simp only [List.mem_cons, List.not_mem_nil, or_false, not_or, CTX_ABORT_CALLBACK,
        CTX_ABORT_STATUS] at ha
      simp -implicitDefEqProofs [callbackAbort, exec1, hctx, ha, CTX_ABORT_CALLBACK,
        CTX_ABORT_STATUS, Cells.set_apply]
    · simp [REGS_X, REGS_HOST_SP, CTX_ABORT_CALLBACK, CTX_ABORT_STATUS]
  all_goals
    simp -implicitDefEqProofs [callbackAbort, exec1, hctx, CTX_ABORT_CALLBACK, CTX_ABORT_STATUS,
      Cells.set_apply]

/-- An aborted callback returns from the invocation that `host_sp` points to. -/
theorem lfiCallbackEnd_abort_spec (ws : Bool) (hctx : s.x 22 = .ptr (.ctx c) 0)
    (habort : s.mem (.ptr (.ctx c) CTX_ABORT_CALLBACK) = .int 1#64)
    (hhost : s.mem (.ptr (.ctx c) REGS_HOST_SP) = .ptr (.stack th) (k - 176))
    (hsp : e.sp = .ptr (.stack th) k)
    (hframe : s.mem.Holds (.ptr (.stack th) (k - 176)) (trampolineFrame c e)) :
    let t := lfiCallbackEnd b ws s
    t.sp = .ptr (.stack th) k ∧ (∀ n ∈ calleeSaved, t.x n = e.x n) ∧
      (∀ i ∈ calleeSavedV, (t.v i).1 = (e.v i).1) ∧ t.pc = e.x 30 ∧
      t.mem (.ptr (.ctx c) REGS_SP) = e.mem (.ptr (.ctx c) REGS_SP) ∧
      t.mem (.ptr (.ctx c) CTX_ABORT_CALLBACK) = .int 0#64 ∧
      t.mem (.ptr (.ctx c) CTX_ABORT_STATUS) = .int 1#64 ∧
      Keeps c th j [REGS_X 25, REGS_HOST_SP] s t := by
  obtain ⟨hctx₁, hflag, -, -, -, hmem₁⟩ := callbackCheck_spec hctx
  let s₁ := exec callbackCheck s
  obtain ⟨hctx₂, hclear, hstatus, -⟩ := callbackAbort_spec th (j := j) hctx₁
  let s₂ := exec callbackAbort s₁
  let s₃ := exec [.mov REG_BASE (.x 0)] s₂
  have hkeeps : ∀ i, Keeps c th i [REGS_X 25, REGS_HOST_SP] s s₃ := by
    intro i
    obtain ⟨-, -, -, hkeeps₂⟩ := callbackAbort_spec th (j := i) hctx₁
    have hkeeps₁ : Keeps c th i [REGS_X 25, REGS_HOST_SP] s s₁ :=
      keeps_of_mem (thread_exec _ s) hmem₁
    exact (hkeeps₁.trans hkeeps₂).trans
      (keeps_of_mem (thread_exec _ s₂) (mem_exec (by decide) s₂))
  obtain ⟨hsp', hx, hv, hpc, hsaved, hkeeps₄⟩ := lfiRetInternal_spec (j := j)
    (show s₃.x 27 = .ptr (.ctx c) 0 from hctx₂) (((hkeeps k).cell (by decide)).trans hhost) hsp
    ((hkeeps (k - 176)).holds (le_refl _) hframe)
  have heq : lfiCallbackEnd b ws s = exec lfiRetInternal s₃ := by
    have hset : s₁.x 10 = .int 1 := hflag.trans habort
    exact if_pos hset
  rw [heq]
  refine ⟨hsp', hx, hv, hpc, hsaved, ?_, ?_, (hkeeps j).trans (hkeeps₄.mono (by decide))⟩
  · exact (hkeeps₄.cell (by decide)).trans hclear
  · exact (hkeeps₄.cell (by decide)).trans hstatus

end LfiRuntime.Arm64
