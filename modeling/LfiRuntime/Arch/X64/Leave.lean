import LfiRuntime.Arch.X64.Enter
import LfiRuntime.Arch.X64.Callback

/-!
What the code between sandbox and host functions does: callbacks, runtime calls
and the returns from the sandbox.
-/

namespace LfiRuntime.X64

open LfiRuntime.BlockMemory
open LfiRuntime.Layout

variable {b : Build} {s t u : State} {c th : Nat} {k j : Int} {n : BitVec 64}

/-- The cells that transition code may write: not the host stack from `k` up,
nor those that link the context to its block and its thread. -/
def Scratch (c th : Nat) (k : Int) : W → Prop
  | .ptr d i => (d = .stack th → i < k) ∧ (d = .ctx c → i ≠ REGS_R15 ∧ i ≠ CTX_GS_CACHE) ∧
      (d = .ctxBlock c → i ≠ SYS_CTX_OFFSET)
  | _ => True

/-- What transition code leaves alone. -/
structure Preserves (c th : Nat) (k : Int) (s t : State) : Prop where
  thread : t.thread = s.thread
  mem : ∀ d i, ¬Scratch c th k (.ptr d i) → t.mem (.ptr d i) = s.mem (.ptr d i)

theorem Preserves.trans (h : Preserves c th k s t) (h' : Preserves c th k t u) :
    Preserves c th k s u := by
  refine ⟨h'.thread.trans h.thread, ?_⟩
  intro d i ha
  rw [h'.mem d i ha, h.mem d i ha]

theorem Preserves.mono (h : Preserves c th k s t) (hkj : k ≤ j) : Preserves c th j s t := by
  refine ⟨h.thread, ?_⟩
  intro d i ha
  apply h.mem d i
  rintro ⟨hstack, hrest⟩
  exact ha ⟨fun hd => lt_of_lt_of_le (hstack hd) hkj, hrest⟩

theorem preserves_of_mem (hthread : t.thread = s.thread)
    (hmem : ∀ d i, t.mem (.ptr d i) = s.mem (.ptr d i)) : Preserves c th k s t :=
  ⟨hthread, fun d i _ => hmem d i⟩

/-- Code with a list of the cells it writes. -/
theorem preserves_of_writes (ws : List W) (hthread : t.thread = s.thread)
    (hmem : ∀ a, a ∉ ws → t.mem a = s.mem a) (hws : ∀ a ∈ ws, Scratch c th k a) :
    Preserves c th k s t := by
  refine ⟨hthread, ?_⟩
  intro d i ha
  apply hmem
  intro hin
  exact ha (hws _ hin)

theorem Preserves.stack (h : Preserves c th k s t) {i : Int} (hi : k ≤ i) :
    t.mem (.ptr (.stack th) i) = s.mem (.ptr (.stack th) i) := by
  apply h.mem
  rintro ⟨hlt, -⟩
  exact absurd (hlt rfl) (not_lt.mpr hi)

theorem Preserves.holds (h : Preserves c th k s t) {i : Int} (hi : k ≤ i) {ws : List W}
    (hw : s.mem.Holds (.ptr (.stack th) i) ws) : t.mem.Holds (.ptr (.stack th) i) ws :=
  hw.congr fun _ hij => h.stack (le_trans hi hij)

theorem Preserves.sys (h : Preserves c th k s t) :
    t.mem (.ptr (.ctxBlock c) SYS_CTX_OFFSET) = s.mem (.ptr (.ctxBlock c) SYS_CTX_OFFSET) := by
  apply h.mem
  rintro ⟨-, -, hne⟩
  exact hne rfl rfl

theorem Preserves.r15 (h : Preserves c th k s t) :
    t.mem (.ptr (.ctx c) REGS_R15) = s.mem (.ptr (.ctx c) REGS_R15) := by
  apply h.mem
  rintro ⟨-, hne, -⟩
  exact (hne rfl).1 rfl

theorem Preserves.cache (h : Preserves c th k s t) :
    t.mem (.ptr (.ctx c) CTX_GS_CACHE) = s.mem (.ptr (.ctx c) CTX_GS_CACHE) := by
  apply h.mem
  rintro ⟨-, hne, -⟩
  exact (hne rfl).2 rfl

/-- Saves of registers into the context. -/
theorem preserves_saves {is : List Instr} {q : Reg} (hq : s.reg q = .ptr (.ctx c) 0)
    (hreg : ∀ i ∈ is, q ∉ i.regs)
    (his : ∀ i ∈ is, i.storesOutside q [REGS_R15, CTX_GS_CACHE] = true) :
    Preserves c th k s (exec is s) := by
  refine ⟨thread_exec _ s, ?_⟩
  intro d i ha
  apply mem_exec_of_storesOutside hq hreg his
  rintro rfl
  simp only [Scratch, reduceCtorEq, false_implies, true_and, and_true, true_implies,
    not_and_or, not_not] at ha
  simpa using ha

/-! Callbacks. -/

theorem callbackAccess_spec (hsp : s.reg .rsp = .int n) :
    let t := callbackAccess b s
    (∀ r, r ∉ [.rax, .r11] → t.reg r = s.reg r) ∧ t.thread = s.thread ∧
      ∀ d i, t.mem (.ptr d i) = s.mem (.ptr d i) := by
  unfold callbackAccess
  cases b.pku with
  | false => simp
  | true =>
      have hpop : ((s.reg .rsp).offset (-8)).offset 8 = s.reg .rsp := by
        rw [hsp]
        simp [BitVec.add_assoc]
      have hne : ∀ d i, Word.ptr d i ≠ (s.reg .rsp).offset (-8) := by
        simp [hsp]
      refine ⟨?_, rfl, ?_⟩
      · intro r hr
        simp only [List.mem_cons, List.not_mem_nil, or_false, not_or] at hr
        cases r <;> simp -implicitDefEqProofs [pkuAllAccess, exec1, State.push, State.drop,
          State.top, hpop] at hr ⊢
      · intro d i
        simp -implicitDefEqProofs [pkuAllAccess, exec1, State.push, State.drop,
          Cells.set_apply, hne]

theorem callbackSwitch_spec (hreg : s.reg .r15 = .ptr (.ctxBlock c) 0)
    (hsys : s.mem (.ptr (.ctxBlock c) SYS_CTX_OFFSET) = .ptr (.ctx c) 0)
    (hhost : s.mem (.ptr (.ctx c) REGS_HOST_SP) = .ptr (.stack th) k) :
    let t := exec callbackSwitch s
    t.reg .rsp = .ptr (.stack th) (k - 16) ∧ t.reg .r11 = .ptr (.ctx c) 0 ∧
      t.mem.Holds (.ptr (.stack th) (k - 16)) [s.mem (.ptr (.ctx c) REGS_RSP), s.reg .r12] ∧
      t.mem (.ptr (.ctx c) REGS_RSP) = s.reg .rsp ∧
      t.mem (.ptr (.ctx c) REGS_HOST_SP) = s.reg .rsp ∧ Preserves c th k s t := by
  simp only [REGS_HOST_SP] at hhost
  refine ⟨?_, ?_, ?_, ?_, ?_, ?_⟩
  case refine_6 =>
    apply preserves_of_writes [.ptr (.ctx c) REGS_HOST_SP, .ptr (.ctx c) REGS_RSP,
      .ptr (.stack th) (k - 8), .ptr (.stack th) (k - 16)] (thread_exec _ s)
    · intro a ha
      simp only [List.mem_cons, List.not_mem_nil, or_false, not_or, REGS_HOST_SP, REGS_RSP,
        Int.sub_eq_add_neg] at ha
      simp -implicitDefEqProofs [callbackSwitch, exec1, State.push, State.ea, hreg, hsys, hhost,
        ha, REGS_HOST_SP, REGS_RSP, Cells.set_apply, Int.add_assoc]
    · simp [Scratch, REGS_HOST_SP, REGS_RSP, REGS_R15, CTX_GS_CACHE]
  all_goals
    simp -implicitDefEqProofs [callbackSwitch, exec1, State.push, State.ea, hreg, hsys, hhost,
      REGS_HOST_SP, REGS_RSP, Cells.set_apply, Cells.Holds, Int.sub_eq_add_neg, Int.add_assoc]

theorem callbackCall_spec (hsp : s.reg .rsp = .ptr (.stack th) k) :
    let t := exec callbackCall s
    t.reg .rsp = .ptr (.stack th) (k - 16) ∧
      t.mem (.ptr (.stack th) (k - 16)) = .ptr (.after .callback) 0 ∧
      t.mem (.ptr (.stack th) (k - 8)) = s.reg .r11 ∧
      (∀ d i, d ≠ .stack th → t.mem (.ptr d i) = s.mem (.ptr d i)) ∧ Preserves c th k s t := by
  refine ⟨?_, ?_, ?_, ?_, ?_⟩
  case refine_5 =>
    apply preserves_of_writes [.ptr (.stack th) (k - 8), .ptr (.stack th) (k - 16)]
      (thread_exec _ s)
    · intro a ha
      simp only [List.mem_cons, List.not_mem_nil, or_false, not_or, Int.sub_eq_add_neg] at ha
      simp -implicitDefEqProofs [callbackCall, exec1, State.push, hsp, ha, Cells.set_apply,
        Int.add_assoc]
    · simp [Scratch]
  case refine_4 =>
    intro d i hd
    simp -implicitDefEqProofs [callbackCall, exec1, State.push, hsp, hd, Cells.set_apply]
  all_goals
    simp -implicitDefEqProofs [callbackCall, exec1, State.push, hsp, Cells.set_apply,
      Int.sub_eq_add_neg, Int.add_assoc]

/-- The cells of the context that a callback uses, from which the saves of its
arguments stay away. -/
theorem saveStructArgs_spec {d : Block} {i : Int} (hctx : s.reg .r11 = .ptr (.ctx c) 0)
    (h : d = .ctx c → i ∈ [REGS_HOST_SP, REGS_RSP, REGS_R15, CTX_ABORT_CALLBACK, CTX_GS_CACHE]) :
    (exec saveStructArgs s).mem (.ptr d i) = s.mem (.ptr d i) :=
  mem_exec_of_storesOutside hctx (by decide) (by decide) h

/-- A callback saves what it will need again below the host stack pointer that
it finds in the context, which now points to the sandbox stack. -/
theorem lfiCallback_spec (ws : Bool) (hreg : s.reg .r15 = .ptr (.ctxBlock c) 0)
    (hsys : s.mem (.ptr (.ctxBlock c) SYS_CTX_OFFSET) = .ptr (.ctx c) 0)
    (hhost : s.mem (.ptr (.ctx c) REGS_HOST_SP) = .ptr (.stack th) k)
    (hsp : s.reg .rsp = .int n) :
    let t := lfiCallback b ws s
    t.reg .rsp = .ptr (.stack th) (k - 32) ∧
      (∀ r ∈ [Reg.rbx, .rbp, .r13, .r14, .r15], t.reg r = s.reg r) ∧
      t.mem.Holds (.ptr (.stack th) (k - 32)) [.ptr (.after .callback) 0, .ptr (.ctx c) 0,
        s.mem (.ptr (.ctx c) REGS_RSP), s.reg .r12] ∧
      t.mem (.ptr (.ctx c) REGS_RSP) = s.reg .rsp ∧
      t.mem (.ptr (.ctx c) REGS_HOST_SP) = s.reg .rsp ∧ Preserves c th k s t := by
  obtain ⟨hreg₁, hthread₁, hmem₁⟩ := callbackAccess_spec (b := b) hsp
  let s₁ := callbackAccess b s
  have hr15 : s₁.reg .r15 = .ptr (.ctxBlock c) 0 := (hreg₁ _ (by decide)).trans hreg
  obtain ⟨hrsp₂, hctx₂, hframe₂, hsaved₂, hhost₂, hpres₂⟩ := callbackSwitch_spec hr15
    ((hmem₁ _ _).trans hsys) ((hmem₁ _ _).trans hhost)
  let s₂ := exec callbackSwitch s₁
  let s₃ := if ws then exec saveStructArgs s₂ else s₂
  have hreg₃ : ∀ r, s₃.reg r = s₂.reg r := by
    intro r
    unfold s₃
    cases ws with
    | false => rfl
    | true => exact reg_exec (by simp [saveStructArgs, Instr.regs]) s₂
  have hmem₃ : ∀ d i, (d = .ctx c →
      i ∈ [REGS_HOST_SP, REGS_RSP, REGS_R15, CTX_ABORT_CALLBACK, CTX_GS_CACHE]) →
      s₃.mem (.ptr d i) = s₂.mem (.ptr d i) := by
    intro d i h
    unfold s₃
    cases ws with
    | false => rfl
    | true => exact saveStructArgs_spec hctx₂ h
  have hpres₃ : Preserves c th k s₂ s₃ := by
    unfold s₃
    cases ws with
    | false => exact preserves_of_mem rfl fun _ _ => rfl
    | true => exact preserves_saves hctx₂ (by decide) (by decide)
  obtain ⟨hrsp₄, hafter, hr11, hmem₄, hpres₄⟩ :=
    callbackCall_spec (c := c) ((hreg₃ .rsp).trans hrsp₂)
  let s₄ := exec callbackCall s₃
  have hstack : ∀ i, k - 16 ≤ i → s₄.mem (.ptr (.stack th) i) = s₂.mem (.ptr (.stack th) i) := by
    intro i hi
    rw [← hmem₃ _ _ (by simp)]
    exact hpres₄.stack hi
  have hcell : ∀ i, i ∈ [REGS_HOST_SP, REGS_RSP] →
      s₄.mem (.ptr (.ctx c) i) = s₂.mem (.ptr (.ctx c) i) := by
    intro i hi
    rw [← hmem₃ (.ctx c) i fun _ => by revert hi; simp; tauto]
    exact hmem₄ _ _ (by simp)
  have hk16 : k - 16 - 16 = k - 32 := by omega
  have hk8 : k - 16 - 8 = k - 24 := by omega
  rw [hk16] at hrsp₄ hafter
  rw [hk8] at hr11
  refine ⟨hrsp₄, ?_, ⟨hafter, ?_, ?_, ?_, trivial⟩, ?_, ?_, ?_⟩
  · intro r hr
    calc s₄.reg r = s₃.reg r := reg_exec (by revert r; decide) s₃
      _ = s₂.reg r := hreg₃ r
      _ = s₁.reg r := reg_exec (by revert r; decide) s₁
      _ = s.reg r := hreg₁ r (by revert r; decide)
  · rw [Word.offset_ptr, show k - 32 + 8 = k - 24 by omega]
    exact hr11.trans ((hreg₃ .r11).trans hctx₂)
  · rw [Word.offset_ptr, Word.offset_ptr, show k - 32 + 8 + 8 = k - 16 by omega]
    exact (hstack _ (by omega)).trans (hframe₂.1.trans (hmem₁ _ _))
  · rw [Word.offset_ptr, Word.offset_ptr, Word.offset_ptr,
      show k - 32 + 8 + 8 + 8 = k - 16 + 8 by omega]
    exact (hstack _ (by omega)).trans (hframe₂.2.1.trans (hreg₁ _ (by decide)))
  · exact (hcell _ (by simp)).trans (hsaved₂.trans (hreg₁ _ (by decide)))
  · exact (hcell _ (by simp)).trans (hhost₂.trans (hreg₁ _ (by decide)))
  · have hpres₁ : Preserves c th k s s₁ := preserves_of_mem hthread₁ hmem₁
    exact hpres₁.trans (hpres₂.trans (hpres₃.trans (hpres₄.mono (by omega))))

/-- With the cache of the segment base in the thread's own data, setting the
base writes nothing else. -/
theorem segue_spec {q : Reg} (scratch : Reg) (hctx : s.reg q = .ptr (.ctx c) 0)
    (hgs : b.segue = true → b.segueCacheGs = true →
      ∃ x i, s.mem (.ptr (.ctx c) CTX_GS_CACHE) = .ptr (.tls x) i) :
    let t := if b.segue then segGsSet b q scratch s else s
    (∀ r, r ≠ scratch → t.reg r = s.reg r) ∧ t.thread = s.thread ∧
      ∀ d i, (∀ x, d ≠ .tls x) → t.mem (.ptr d i) = s.mem (.ptr d i) := by
  cases hsegue : b.segue with
  | false => exact ⟨fun _ _ => rfl, rfl, fun _ _ _ => rfl⟩
  | true =>
      obtain ⟨hreg, -, hthread, -, hmem⟩ := segGsSet_spec b q scratch s
      refine ⟨hreg, hthread, ?_⟩
      intro d i hd
      apply hmem
      intro hcache
      obtain ⟨x, o, hcell⟩ := hgs hsegue hcache
      rw [State.ea, hctx, Word.offset_ptr, Int.zero_add, hcell, Word.offset_ptr]
      intro heq
      exact hd x (Word.ptr.inj heq).1

theorem callbackReturn_spec {w v : W} (hctx : s.reg .r11 = .ptr (.ctx c) 0)
    (hsp : s.reg .rsp = .ptr (.stack th) (k - 16))
    (hframe : s.mem.Holds (.ptr (.stack th) (k - 16)) [w, v]) :
    let t := exec callbackReturn s
    t.reg .rsp = s.mem (.ptr (.ctx c) REGS_RSP) ∧ t.reg .r11 = .ptr (.ctx c) 0 ∧
      t.reg .r12 = v ∧ t.mem (.ptr (.ctx c) REGS_RSP) = w ∧
      t.mem (.ptr (.ctx c) REGS_HOST_SP) = .ptr (.stack th) k ∧
      Preserves c th j s t := by
  simp only [Cells.Holds, Word.offset_ptr, Int.sub_eq_add_neg, Int.add_assoc, Int.reduceNeg,
    Int.reduceAdd] at hframe hsp
  refine ⟨?_, ?_, ?_, ?_, ?_, ?_⟩
  case refine_6 =>
    apply preserves_of_writes [.ptr (.ctx c) REGS_HOST_SP, .ptr (.ctx c) REGS_RSP]
      (thread_exec _ s)
    · intro a ha
      simp only [List.mem_cons, List.not_mem_nil, or_false, not_or, REGS_HOST_SP,
        REGS_RSP] at ha
      simp -implicitDefEqProofs [callbackReturn, exec1, State.drop, State.top, State.ea, hctx,
        hsp, ha, REGS_HOST_SP, REGS_RSP, Cells.set_apply]
    · simp [Scratch, REGS_HOST_SP, REGS_RSP, REGS_R15, CTX_GS_CACHE]
  all_goals
    simp -implicitDefEqProofs [callbackReturn, exec1, State.drop, State.top, State.ea, hctx, hsp,
      hframe, REGS_HOST_SP, REGS_RSP, Cells.set_apply, Int.add_assoc]

theorem callbackPku_spec (b : Build) (s : State) :
    (∀ r ∈ [Reg.rbx, .rbp, .rsp, .r12, .r13, .r14, .r15],
        (callbackPku b s).reg r = s.reg r) ∧
      (callbackPku b s).mem = s.mem ∧ (callbackPku b s).thread = s.thread := by
  unfold callbackPku
  cases b.pku with
  | false => exact ⟨fun _ _ => rfl, rfl, rfl⟩
  | true =>
      obtain ⟨hreg, -, hmem, hthread, -⟩ := pkuBoxAccess_spec b
        (exec [.load REGS_PKEY .r11 .rcx, .mov .rax .r11, .mov .rdx .r10] s)
      refine ⟨?_, hmem, hthread⟩
      intro r hr
      simp only [if_true]
      rw [reg_exec (by revert r; decide), hreg r (by revert r; decide) (by revert r; decide)
        (by revert r; decide)]
      exact reg_exec (by revert r; decide) s

/-- The way back into the sandbox, on its own stack. -/
theorem callbackTail_spec (ws : Bool) (s : State) :
    let t := callbackTail b ws s
    t.reg .rsp = (s.reg .rsp).offset 8 ∧
      (∀ r ∈ [Reg.rbx, .rbp, .r12, .r13, .r14, .r15], t.reg r = s.reg r) ∧
      t.mem = s.mem ∧ t.thread = s.thread := by
  let s₁ := if ws then exec loadStructResults s else s
  obtain ⟨hreg₂, -, hmem₂, hthread₂, -⟩ := loadFp_spec b .r11 s₁
  let s₂ := loadFp b .r11 s₁
  obtain ⟨hreg₃, hmem₃, hthread₃⟩ := callbackPku_spec b s₂
  let s₃ := callbackPku b s₂
  let s₄ := if b.storesOnly then s₃ else exec zeroCallerRegs s₃
  have hreg : ∀ r ∈ [Reg.rbx, .rbp, .rsp, .r12, .r13, .r14, .r15], s₄.reg r = s.reg r := by
    intro r hr
    calc s₄.reg r = s₃.reg r := by
          unfold s₄
          cases b.storesOnly with
          | false => exact reg_exec (by revert r; decide) s₃
          | true => rfl
      _ = s₁.reg r := (hreg₃ r hr).trans (congrFun hreg₂ r)
      _ = s.reg r := by
          unfold s₁
          cases ws with
          | false => rfl
          | true => exact reg_exec (by revert r; decide) s
  have hmem : s₄.mem = s.mem := by
    calc s₄.mem = s₃.mem := by
          unfold s₄
          cases b.storesOnly with
          | false => exact mem_exec (by decide) s₃
          | true => rfl
      _ = s₁.mem := hmem₃.trans hmem₂
      _ = s.mem := by
          unfold s₁
          cases ws with
          | false => rfl
          | true => exact mem_exec (by decide) s
  have hthread : s₄.thread = s.thread := by
    calc s₄.thread = s₃.thread := by
          unfold s₄
          cases b.storesOnly <;> rfl
      _ = s₁.thread := hthread₃.trans hthread₂
      _ = s.thread := by
          unfold s₁
          cases ws <;> rfl
  refine ⟨?_, ?_, ?_, ?_⟩
  · rw [← hreg .rsp (by decide)]
    simp [callbackTail, callbackJump, exec1, State.drop, s₄, s₃, s₂, s₁]
  · intro r hr
    rw [← hreg r (by revert r; decide)]
    exact reg_exec (by revert r; decide) s₄
  · exact (mem_exec (by decide) s₄).trans hmem
  · exact (thread_exec callbackJump s₄).trans hthread

/-- What the host function is called with comes back, and whether the callback
is to be aborted. -/
theorem callbackCheck_spec (hsp : s.reg .rsp = .ptr (.stack th) (k - 24))
    (hctx : s.mem (.ptr (.stack th) (k - 24)) = .ptr (.ctx c) 0) :
    let t := exec [.pop .r11, .cmpMemImm 1 CTX_ABORT_CALLBACK .r11] s
    t.reg .rsp = .ptr (.stack th) (k - 16) ∧ t.reg .r11 = .ptr (.ctx c) 0 ∧
      t.flags.zf = decide (s.mem (.ptr (.ctx c) CTX_ABORT_CALLBACK) = .int 1#64) ∧
      t.mem = s.mem ∧ t.thread = s.thread ∧ ∀ r, r ∉ [.rsp, .r11] → t.reg r = s.reg r := by
  simp only [Int.sub_eq_add_neg] at hsp hctx
  refine ⟨?_, ?_, ?_, rfl, rfl, ?_⟩
  case refine_4 =>
    intro r hr
    exact reg_exec (by simpa [Instr.regs] using hr) s
  all_goals
    simp -implicitDefEqProofs [exec1, State.drop, State.top, State.ea, hsp, hctx, Flags.zf,
      Int.sub_eq_add_neg, Int.add_assoc]

/-- A callback whose host function has returned above its frame. -/
structure CallbackReturned (b : Build) (c th : Nat) (k : Int) (w v : W) (s : State) : Prop where
  rsp : s.reg .rsp = .ptr (.stack th) (k - 24)
  frame : s.mem.Holds (.ptr (.stack th) (k - 32))
    [.ptr (.after .callback) 0, .ptr (.ctx c) 0, w, v]
  cache : b.segue = true → b.segueCacheGs = true →
    ∃ x i, s.mem (.ptr (.ctx c) CTX_GS_CACHE) = .ptr (.tls x) i

theorem CallbackReturned.ctx {w v : W} (h : CallbackReturned b c th k w v s) :
    s.mem (.ptr (.stack th) (k - 24)) = .ptr (.ctx c) 0 := by
  have hcell := h.frame.2.1
  rwa [Word.offset_ptr, show k - 32 + 8 = k - 24 by omega] at hcell

theorem CallbackReturned.saved {w v : W} (h : CallbackReturned b c th k w v s) :
    s.mem.Holds (.ptr (.stack th) (k - 16)) [w, v] := by
  have hcells := h.frame.2.2
  rwa [Word.offset_ptr, Word.offset_ptr, show k - 32 + 8 + 8 = k - 16 by omega] at hcells

/-- The callback goes back to the sandbox. -/
theorem lfiCallbackEnd_spec (ws : Bool) {w v : W} (h : CallbackReturned b c th k w v s)
    (habort : s.mem (.ptr (.ctx c) CTX_ABORT_CALLBACK) ≠ .int 1#64) :
    let t := lfiCallbackEnd b ws s
    t.reg .rsp = (s.mem (.ptr (.ctx c) REGS_RSP)).offset 8 ∧ t.reg .r12 = v ∧
      (∀ r ∈ [Reg.rbx, .rbp, .r13, .r14, .r15], t.reg r = s.reg r) ∧
      t.mem (.ptr (.ctx c) REGS_RSP) = w ∧
      t.mem (.ptr (.ctx c) REGS_HOST_SP) = .ptr (.stack th) k ∧ Preserves c th j s t := by
  obtain ⟨hrsp₁, hctx₁, hzf, hmem₁, hthread₁, hreg₁⟩ := callbackCheck_spec h.rsp h.ctx
  let s₁ := exec [.pop .r11, .cmpMemImm 1 CTX_ABORT_CALLBACK .r11] s
  have hzf' : ¬s₁.flags.zf = true := by
    rw [hzf, decide_eq_false habort]
    exact Bool.false_ne_true
  obtain ⟨hreg₂, hthread₂, hmem₂⟩ := segue_spec (b := b) .r10 hctx₁ (by
    intro hsegue hcache
    rw [hmem₁]
    exact h.cache hsegue hcache)
  let s₂ := if b.segue then segGsSet b .r11 .r10 s₁ else s₁
  have hframe₂ : s₂.mem.Holds (.ptr (.stack th) (k - 16)) [w, v] :=
    h.saved.congr fun i _ => (hmem₂ _ _ (by simp)).trans (congrFun hmem₁ _)
  obtain ⟨hrsp₃, -, hr12, hsaved, hhost, hpres₃⟩ := callbackReturn_spec (j := j)
    ((hreg₂ _ (by decide)).trans hctx₁) ((hreg₂ _ (by decide)).trans hrsp₁) hframe₂
  let s₃ := exec callbackReturn s₂
  obtain ⟨hrsp₄, hreg₄, hmem₄, hthread₄⟩ := callbackTail_spec (b := b) ws s₃
  have heq : lfiCallbackEnd b ws s = callbackTail b ws s₃ := if_neg hzf'
  rw [heq]
  have hpres : Preserves c th j s s₃ := by
    have hpres₂ : Preserves c th j s s₂ := by
      refine ⟨hthread₂.trans hthread₁, ?_⟩
      intro d i ha
      rw [← hmem₁]
      apply hmem₂
      rintro x rfl
      exact ha (by simp [Scratch])
    exact hpres₂.trans hpres₃
  refine ⟨?_, ?_, ?_, ?_, ?_, ?_⟩
  · rw [hrsp₄, hrsp₃, ← hmem₁]
    exact congrArg (Word.offset · 8) (hmem₂ (.ctx c) REGS_RSP (by simp))
  · rw [hreg₄ _ (by decide), hr12]
  · intro r hr
    calc _ = s₃.reg r := hreg₄ r (by revert r; decide)
      _ = s₂.reg r := reg_exec (by revert r; decide) s₂
      _ = s₁.reg r := hreg₂ r (by revert r; decide)
      _ = s.reg r := hreg₁ r (by revert r; decide)
  · rw [hmem₄, hsaved]
  · rw [hmem₄, hhost]
  · exact hpres.trans (preserves_of_mem hthread₄ fun _ _ => congrFun hmem₄ _)

/-! Returns from the sandbox. -/

/-- What a trampoline saves, from the host stack pointer in the context up: the
sandbox stack pointer first, the return address last. -/
def trampolineFrame (c : Nat) (s : State) : List W :=
  [s.mem (.ptr (.ctx c) REGS_RSP), s.reg .rbp, s.reg .rbx, s.reg .r12, s.reg .r13, s.reg .r14,
    .int 0, s.reg .r15, s.top]

/-- `lfi_ret_end` undoes the trampoline entered in `e`. -/
theorem lfiRetEnd_spec {e : State} (hctx : s.reg .rdi = .ptr (.ctx c) 0)
    (hhost : s.mem (.ptr (.ctx c) REGS_HOST_SP) = .ptr (.stack th) k)
    (hframe : s.mem.Holds (.ptr (.stack th) k) (trampolineFrame c e)) :
    let t := exec lfiRetEnd s
    t.reg .rsp = .ptr (.stack th) (k + 72) ∧ (∀ r ∈ calleeSaved, t.reg r = e.reg r) ∧
      t.pc = e.top ∧
      t.mem (.ptr (.ctx c) REGS_RSP) = e.mem (.ptr (.ctx c) REGS_RSP) ∧
      t.mem (.ptr (.ctx c) REGS_HOST_SP) = .ptr (.stack th) k ∧
      t.mem (.ptr (.ctx c) CTX_ABORT_CALLBACK) = s.mem (.ptr (.ctx c) CTX_ABORT_CALLBACK) ∧
      Preserves c th j s t := by
  simp only [Cells.Holds, trampolineFrame, Word.offset_ptr, Int.add_assoc,
    Int.reduceAdd] at hframe
  simp only [REGS_HOST_SP] at hhost
  refine ⟨?_, ?_, ?_, ?_, ?_, ?_, ?_⟩
  case refine_7 =>
    apply preserves_of_writes [.ptr (.ctx c) REGS_RAX, .ptr (.ctx c) REGS_RDX,
      .ptr (.ctx c) (REGS_XMM 0), .ptr (.ctx c) (REGS_XMM 0 + 8), .ptr (.ctx c) (REGS_XMM 1),
      .ptr (.ctx c) (REGS_XMM 1 + 8), .ptr (.ctx c) REGS_RSP] (thread_exec _ s)
    · intro a ha
      simp [REGS_RAX, REGS_RDX, REGS_XMM, REGS_RSP] at ha
      simp -implicitDefEqProofs [lfiRetEnd, exec1, State.drop, State.top, State.ea, hctx, ha,
        REGS_RAX, REGS_RDX, REGS_XMM, REGS_RSP, Cells.set_apply]
    · simp [Scratch, REGS_RAX, REGS_RDX, REGS_XMM, REGS_RSP, REGS_R15, CTX_GS_CACHE]
  all_goals
    simp -implicitDefEqProofs [lfiRetEnd, exec1, State.drop, State.top, State.ea, hctx, hhost,
      hframe, calleeSaved, REGS_HOST_SP, REGS_RAX, REGS_RDX, REGS_XMM, REGS_RSP,
      CTX_ABORT_CALLBACK, Cells.set_apply, Int.add_assoc]

theorem lfiRet_spec {e : State} (hreg : s.reg .r15 = .ptr (.ctxBlock c) 0)
    (hsys : s.mem (.ptr (.ctxBlock c) SYS_CTX_OFFSET) = .ptr (.ctx c) 0)
    (hhost : s.mem (.ptr (.ctx c) REGS_HOST_SP) = .ptr (.stack th) k)
    (hframe : s.mem.Holds (.ptr (.stack th) k) (trampolineFrame c e)) :
    let t := lfiRet b s
    t.reg .rsp = .ptr (.stack th) (k + 72) ∧ (∀ r ∈ calleeSaved, t.reg r = e.reg r) ∧
      t.pc = e.top ∧
      t.mem (.ptr (.ctx c) REGS_RSP) = e.mem (.ptr (.ctx c) REGS_RSP) ∧
      t.mem (.ptr (.ctx c) REGS_HOST_SP) = .ptr (.stack th) k ∧ Preserves c th j s t := by
  let s₁ := if b.pku then
      exec [.mov .rdi .rax, .mov .rsi .rdx]
        (exec pkuAllAccess (exec [.mov .rax .rdi, .mov .rdx .rsi] s))
    else s
  have hmem₁ : s₁.mem = s.mem := by
    unfold s₁
    cases b.pku <;> rfl
  have hr15 : s₁.reg .r15 = .ptr (.ctxBlock c) 0 := by
    rw [← hreg]
    unfold s₁
    cases b.pku with
    | false => rfl
    | true => simp [pkuAllAccess, exec1]
  have hctx : (exec (getCtx .rdi) s₁).reg .rdi = .ptr (.ctx c) 0 := by
    simp [getCtx, exec1, State.ea, hr15, hmem₁, hsys]
  have hmem : (exec (getCtx .rdi) s₁).mem = s.mem := hmem₁
  rw [← hmem] at hhost hframe
  obtain ⟨hrsp, hsaved, hpc, hsp, hhost', -, hpres⟩ := lfiRetEnd_spec (j := j) hctx hhost hframe
  refine ⟨hrsp, hsaved, hpc, hsp, hhost', Preserves.trans ?_ hpres⟩
  apply preserves_of_mem
  · change s₁.thread = s.thread
    unfold s₁
    cases b.pku <;> rfl
  · intro d i
    rw [hmem]

theorem callbackAbort_spec (hctx : s.reg .r11 = .ptr (.ctx c) 0)
    (hsp : s.reg .rsp = .ptr (.stack th) (k - 16)) :
    let t := exec callbackAbort s
    t.reg .rdi = .ptr (.ctx c) 0 ∧
      t.mem (.ptr (.ctx c) REGS_HOST_SP) = .ptr (.stack th) k ∧
      t.mem (.ptr (.ctx c) CTX_ABORT_CALLBACK) = .int 0#64 ∧ Preserves c th k s t := by
  refine ⟨?_, ?_, ?_, ?_⟩
  case refine_4 =>
    apply preserves_of_writes [.ptr (.ctx c) CTX_ABORT_CALLBACK, .ptr (.ctx c) CTX_ABORT_STATUS,
      .ptr (.ctx c) REGS_HOST_SP, .ptr (.stack th) (k - 8)] (thread_exec _ s)
    · intro a ha
      simp [CTX_ABORT_CALLBACK, CTX_ABORT_STATUS, REGS_HOST_SP, Int.sub_eq_add_neg] at ha
      simp -implicitDefEqProofs [callbackAbort, exec1, State.push, State.ea, hctx, hsp,
        ha, CTX_ABORT_CALLBACK, CTX_ABORT_STATUS, REGS_HOST_SP, Cells.set_apply,
        Int.sub_eq_add_neg]
    · simp [Scratch, CTX_ABORT_CALLBACK, CTX_ABORT_STATUS, REGS_HOST_SP, REGS_R15, CTX_GS_CACHE]
  all_goals
    simp -implicitDefEqProofs [callbackAbort, exec1, State.push, State.ea, hctx, hsp,
      CTX_ABORT_CALLBACK, CTX_ABORT_STATUS, REGS_HOST_SP, Cells.set_apply]

/-- An aborted callback puts `host_sp` right and returns for the invocation. -/
theorem lfiCallbackEnd_abort_spec (ws : Bool) {w v : W} {e : State}
    (h : CallbackReturned b c th k w v s)
    (habort : s.mem (.ptr (.ctx c) CTX_ABORT_CALLBACK) = .int 1#64)
    (hframe : s.mem.Holds (.ptr (.stack th) k) (trampolineFrame c e)) :
    let t := lfiCallbackEnd b ws s
    t.reg .rsp = .ptr (.stack th) (k + 72) ∧ (∀ r ∈ calleeSaved, t.reg r = e.reg r) ∧
      t.pc = e.top ∧
      t.mem (.ptr (.ctx c) REGS_RSP) = e.mem (.ptr (.ctx c) REGS_RSP) ∧
      t.mem (.ptr (.ctx c) REGS_HOST_SP) = .ptr (.stack th) k ∧
      t.mem (.ptr (.ctx c) CTX_ABORT_CALLBACK) = .int 0#64 ∧ Preserves c th k s t := by
  obtain ⟨hrsp₁, hctx₁, hzf, hmem₁, hthread₁, -⟩ := callbackCheck_spec h.rsp h.ctx
  let s₁ := exec [.pop .r11, .cmpMemImm 1 CTX_ABORT_CALLBACK .r11] s
  have hpres₁ : Preserves c th k s s₁ := preserves_of_mem hthread₁ fun _ _ => congrFun hmem₁ _
  obtain ⟨hrdi, hhost, hclear, hpres₂⟩ := callbackAbort_spec hctx₁ hrsp₁
  let s₂ := exec callbackAbort s₁
  obtain ⟨hrsp, hsaved, hpc, hsp, hhost', hclear', hpres⟩ := lfiRetEnd_spec (j := k)
    hrdi hhost ((hpres₁.trans hpres₂).holds (le_refl k) hframe)
  have heq : lfiCallbackEnd b ws s = exec lfiRetEnd s₂ := by
    have hzf' : s₁.flags.zf = true := by
      rw [hzf, habort]
      exact decide_eq_true rfl
    exact if_pos hzf'
  rw [heq]
  exact ⟨hrsp, hsaved, hpc, hsp, hhost', hclear'.trans hclear,
    hpres₁.trans (hpres₂.trans hpres)⟩

/-! Runtime calls. -/

theorem syscallAccess_spec (hreg : s.reg .r15 = .ptr (.ctxBlock c) 0) :
    let t := syscallAccess b s
    (∀ r ∈ [Reg.rsp, .rbx, .rbp, .r12, .r13, .r14, .r15], t.reg r = s.reg r) ∧
      t.thread = s.thread ∧ ∀ d i, (d = .ctxBlock c → i < 0) →
        t.mem (.ptr d i) = s.mem (.ptr d i) := by
  unfold syscallAccess
  cases b.pku with
  | false => exact ⟨fun _ _ => rfl, rfl, fun _ _ _ => rfl⟩
  | true =>
      simp only [if_true]
      refine ⟨?_, rfl, ?_⟩
      · intro r hr
        rw [reg_exec (by revert r; decide), reg_exec (by revert r; decide)]
        exact reg_exec (by revert r; decide) s
      · intro d i hd
        have hne : ∀ o, 0 ≤ o → Word.ptr d i ≠ .ptr (.ctxBlock c) o := by
          rintro o ho heq
          obtain ⟨rfl, rfl⟩ := Word.ptr.inj heq
          exact absurd (hd rfl) (not_lt.mpr ho)
        have hne₀ := hne CTXREG_SCRATCH0_OFFSET (by decide)
        have hne₁ := hne CTXREG_SCRATCH1_OFFSET (by decide)
        simp -implicitDefEqProofs [pkuAllAccess, exec1, State.ea, hreg, hne₀, hne₁,
          Cells.set_apply]

theorem syscallCall_spec (hctx : s.reg .rcx = .ptr (.ctx c) 0)
    (hhost : s.mem (.ptr (.ctx c) REGS_HOST_SP) = .ptr (.stack th) k) :
    let t := exec syscallCall s
    t.reg .rsp = .ptr (.stack th) (k - 16) ∧
      t.mem.Holds (.ptr (.stack th) (k - 16))
        [.ptr (.after .lfiSyscallHandler) 0, .ptr (.ctx c) 0] ∧
      (∀ d i, d ≠ .stack th → t.mem (.ptr d i) = s.mem (.ptr d i)) ∧ Preserves c th k s t := by
  refine ⟨?_, ?_, ?_, ?_⟩
  case refine_4 =>
    apply preserves_of_writes [.ptr (.stack th) (k - 8), .ptr (.stack th) (k - 16)]
      (thread_exec _ s)
    · intro a ha
      simp only [List.mem_cons, List.not_mem_nil, or_false, not_or, Int.sub_eq_add_neg] at ha
      simp -implicitDefEqProofs [syscallCall, exec1, State.push, State.ea, hctx, hhost, ha,
        Cells.set_apply, Int.add_assoc]
    · simp [Scratch]
  case refine_3 =>
    intro d i hd
    simp -implicitDefEqProofs [syscallCall, exec1, State.push, State.ea, hctx, hhost, hd,
      Cells.set_apply]
  all_goals
    simp -implicitDefEqProofs [syscallCall, exec1, State.push, State.ea, hctx, hhost,
      Cells.Holds, Cells.set_apply, Int.sub_eq_add_neg, Int.add_assoc]

end LfiRuntime.X64
