import LfiRuntime.Arch.Transitions
import LfiRuntime.Arch.X64.Leave
import LfiRuntime.Arch.X64.RuntimeCall
import LfiRuntime.Arch.X64.StructEntry

/-!
The x86-64 transition code as an architecture of the nested runs.
-/

namespace LfiRuntime.X64

open LfiRuntime.BlockMemory
open LfiRuntime.Layout

/-- What a transition leaves on the host stack, from the bottom up. -/
def frameWords (c : Nat) : Transitions.Kind → State → List W
  | .invoke, e => trampolineFrame c e
  | .callback _, e =>
      [.ptr (.after .callback) 0, .ptr (.ctx c) 0, e.mem (.ptr (.ctx c) REGS_RSP), e.reg .r12]
  | .syscall, _ => [.ptr (.after .lfiSyscallHandler) 0, .ptr (.ctx c) 0]
  | .run, e =>
      [e.reg .rbp, e.reg .rbx, e.reg .r12, e.reg .r13, e.reg .r14, e.reg .r15, e.top]

def arch (b : Build) (clone : HostFn) : Transitions.Arch State where
  mem := State.mem
  sp s := s.reg .rsp
  pc := State.pc
  thread := State.thread
  ctxReg s := s.reg .r15
  arg0 s := s.reg .rdi
  arg1 s := s.reg .rsi
  kept s := calleeSaved.map s.reg
  boxKept s := calleeSaved.map s.reg
  retAddr := State.top
  retPop := 8
  spCell := REGS_RSP
  abortCell := CTX_ABORT_CALLBACK
  invokeInfo := invokeInfo b
  links c := [(.ptr (.ctxBlock c) SYS_CTX_OFFSET, .ptr (.ctx c) 0),
    (.ptr (.ctx c) REGS_R15, .ptr (.ctxBlock c) 0)]
  bound th c :=
    if b.segue && b.segueCacheGs then
      [(.ptr (.ctx c) CTX_GS_CACHE, (invokeInfo b th).offset INVOKE_GS_BASE)]
    else []
  size
    | .invoke => 64
    | .callback _ => 32
    | .syscall => 16
    | .run => 48
  words := frameWords
  swaps := true
  lfiTrampoline ws := if ws then lfiTrampolineStruct b clone else lfiTrampoline b clone
  lfiRet := lfiRet b
  lfiCallback := lfiCallback b
  lfiCallbackEnd := lfiCallbackEnd b
  lfiSyscallEntry := lfiSyscallEntry b
  lfiSyscallEnd := lfiSyscallEnd b
  lfiCtxEntry := lfiCtxEntry b
  lfiCtxEnd := exec lfiCtxEnd

variable {b : Build} {clone : HostFn} {c th : Nat} {s t u e : State} {k j : Int} {ws : Bool}

theorem attached_iff : Transitions.Attached (arch b clone) c th s ↔
    s.thread = th ∧ s.mem (.ptr (.ctxBlock c) SYS_CTX_OFFSET) = .ptr (.ctx c) 0 ∧
      s.mem (.ptr (.ctx c) REGS_R15) = .ptr (.ctxBlock c) 0 ∧
      (b.segue = true → b.segueCacheGs = true →
        s.mem (.ptr (.ctx c) CTX_GS_CACHE) = (invokeInfo b th).offset INVOKE_GS_BASE) ∧
      ∃ n, s.mem (.ptr (.ctx c) REGS_RSP) = .int n := by
  constructor
  · rintro ⟨hthread, hlinked, hbound, hsaved⟩
    refine ⟨hthread, ?_, ?_, ?_, hsaved⟩
    · exact hlinked (_, .ptr (.ctx c) 0) (by simp [arch])
    · exact hlinked (_, .ptr (.ctxBlock c) 0) (by simp [arch])
    · intro hsegue hcache
      exact hbound (_, (invokeInfo b th).offset INVOKE_GS_BASE) (by simp [arch, hsegue, hcache])
  · rintro ⟨hthread, hsys, hr15, hcache, hsaved⟩
    refine ⟨hthread, ?_, ?_, hsaved⟩
    · intro p hp
      simp only [arch, List.mem_cons, List.not_mem_nil, or_false] at hp
      rcases hp with rfl | rfl
      · exact hsys
      · exact hr15
    · intro p hp
      simp only [arch, Bool.and_eq_true, List.mem_ite_nil_right, List.mem_singleton] at hp
      obtain ⟨⟨hsegue, hgs⟩, rfl⟩ := hp
      exact hcache hsegue hgs

theorem Preserves.attached (h : Preserves c th k s t)
    (hs : Transitions.Attached (arch b clone) c th s) {n : BitVec 64}
    (hsaved : t.mem (.ptr (.ctx c) REGS_RSP) = .int n) :
    Transitions.Attached (arch b clone) c th t := by
  rw [attached_iff] at hs ⊢
  obtain ⟨hthread, hsys, hr15, hcache, -⟩ := hs
  refine ⟨h.thread.trans hthread, h.sys.trans hsys, h.r15.trans hr15, ?_, n, hsaved⟩
  intro hsegue hgs
  exact h.cache.trans (hcache hsegue hgs)

/-! Callbacks. -/

theorem law_callback (ws : Bool) (h : Transitions.InBox (arch b clone) c th s)
    (hhost : (arch b clone).hostSp c s = Transitions.hostStack th k) :
    let t := lfiCallback b ws s
    Transitions.Attached (arch b clone) c th t ∧
      Transitions.Pushed (arch b clone) c th (.callback ws) k s t ∧
      t.reg .rsp = Transitions.hostStack th (k - 32) ∧
      t.mem (.ptr (.ctx c) REGS_RSP) = s.reg .rsp ∧
      t.mem (.ptr (.ctx c) REGS_HOST_SP) = s.reg .rsp ∧
      ∀ r ∈ [Reg.rbx, .rbp, .r13, .r14, .r15], t.reg r = s.reg r := by
  obtain ⟨-, hsys, -⟩ := attached_iff.mp h.toAttached
  obtain ⟨n, hsp⟩ := h.boxSp
  obtain ⟨hrsp, hreg, hframe, hsaved, hhost', hpres⟩ :=
    lfiCallback_spec (b := b) ws h.ctxReg hsys hhost hsp
  have hint : s.reg .rsp = .int n := hsp
  exact ⟨hpres.attached h.toAttached (hsaved.trans hint), ⟨hframe, fun i hi => hpres.stack hi⟩,
    hrsp, hsaved, hhost', hreg⟩

/-- The host function has returned as the assembly expects. -/
theorem callbackReturned (h : Transitions.Returning (arch b clone) c th (.callback ws) e k
      (lfiCallback b ws) s) :
    CallbackReturned b c th k (e.mem (.ptr (.ctx c) REGS_RSP)) (e.reg .r12) s := by
  obtain ⟨-, -, -, hcache, -⟩ := attached_iff.mp h.attached
  refine ⟨?_, h.frame, ?_⟩
  · have hsp : s.reg .rsp = .ptr (.stack th) (k - 32 + 8) := h.sp
    rw [hsp, show k - 32 + 8 = k - 24 by omega]
  · intro hsegue hgs
    exact ⟨th, _, hcache hsegue hgs⟩

/-- What it keeps it has from the entry of the callback. -/
theorem returning_kept (h : Transitions.Returning (arch b clone) c th (.callback ws) e k
      (lfiCallback b ws) s) : ∀ r ∈ [Reg.rbx, .rbp, .r13, .r14, .r15], s.reg r = e.reg r := by
  obtain ⟨-, -, -, -, -, hreg⟩ := law_callback ws h.entry h.entrySp
  have hkept : ∀ r ∈ calleeSaved, s.reg r = (lfiCallback b ws e).reg r :=
    List.map_inj_left.mp h.kept
  intro r hr
  rw [hkept r (by revert r; decide), hreg r hr]

theorem law_callbackEnd (h : Transitions.Returning (arch b clone) c th (.callback ws) e k
      (lfiCallback b ws) s) (habort : ¬(arch b clone).Aborted c s) :
    let t := lfiCallbackEnd b ws s
    Transitions.InBox (arch b clone) c th t ∧
      t.reg .rsp = (s.mem (.ptr (.ctx c) REGS_RSP)).offset 8 ∧
      calleeSaved.map t.reg = calleeSaved.map e.reg ∧
      t.mem (.ptr (.ctx c) REGS_RSP) = e.mem (.ptr (.ctx c) REGS_RSP) ∧
      t.mem (.ptr (.ctx c) REGS_HOST_SP) = Transitions.hostStack th k ∧
      (arch b clone).SameFrom th k s t := by
  obtain ⟨hrsp, hr12, hreg, hsaved, hhost, hpres⟩ :=
    lfiCallbackEnd_spec (j := k) ws (callbackReturned h) habort
  let t := lfiCallbackEnd b ws s
  have hkept : ∀ r ∈ calleeSaved, t.reg r = e.reg r := by
    intro r hr
    rcases eq_or_ne r .r12 with rfl | hne
    · exact hr12
    · have hmem : r ∈ [Reg.rbx, .rbp, .r13, .r14, .r15] := by
        revert r
        decide
      exact (hreg r hmem).trans (returning_kept h r hmem)
  obtain ⟨n, hn⟩ := h.attached.saved
  have hint : s.mem (.ptr (.ctx c) REGS_RSP) = .int n := hn
  obtain ⟨m, hm⟩ := h.entry.saved
  refine ⟨⟨hpres.attached h.attached (hsaved.trans hm), ?_, ?_⟩, hrsp, ?_, hsaved, hhost,
    fun i hi => hpres.stack hi⟩
  · exact (hkept .r15 (by decide)).trans h.entry.ctxReg
  · refine ⟨n + BitVec.ofInt 64 8, ?_⟩
    rw [← Word.offset_int, ← hint]
    exact hrsp
  · exact List.map_congr_left hkept

/-! Returns from the sandbox. -/

theorem invoked_of (h : Transitions.Invoked (arch b clone) c th s k) :
    ∃ blk o, Invoked b s k blk o ∧ s.mem (.ptr blk o) = .ptr (.ctx c) 0 ∧ blk ≠ .ctx c ∧
      .ptr blk o ≠ (invokeInfo b s.thread).offset INVOKE_GS_BASE := by
  have hthread : s.thread = th := h.thread
  obtain ⟨blk, o, hctxp, hslot, hblk, hinfo, hoff⟩ := h.slot
  rw [← hthread] at hctxp hinfo hoff
  refine ⟨blk, o, ⟨?_, hctxp, hoff⟩, hslot, hblk, hinfo⟩
  rw [hthread]
  exact h.sp

/-- A return through the frame of the invocation entered in `e`. -/
theorem returns_of (he : Transitions.Invoked (arch b clone) c th e j)
    (hk : k = j - 64) (hrsp : t.reg .rsp = .ptr (.stack th) (k + 72))
    (hkept : ∀ r ∈ calleeSaved, t.reg r = e.reg r) (hpc : t.pc = e.top) :
    Transitions.Returns (arch b clone) e t := by
  have hsp : e.reg .rsp = .ptr (.stack th) j := he.sp
  refine ⟨?_, List.map_congr_left hkept, hpc⟩
  change t.reg .rsp = (e.reg .rsp).offset 8
  rw [hrsp, hsp, hk, Word.offset_ptr, show j - 64 + 72 = j + 8 by omega]

theorem law_ret (h : Transitions.InBox (arch b clone) c th s)
    (he : Transitions.Invoked (arch b clone) c th e j)
    (hhost : (arch b clone).hostSp c s = Transitions.hostStack th (j - 64))
    (hframe : s.mem.Holds (Transitions.hostStack th (j - 64)) (trampolineFrame c e)) :
    let t := lfiRet b s
    Transitions.Attached (arch b clone) c th t ∧ Transitions.Returns (arch b clone) e t ∧
      t.mem (.ptr (.ctx c) REGS_RSP) = e.mem (.ptr (.ctx c) REGS_RSP) ∧
      t.mem (.ptr (.ctx c) REGS_HOST_SP) = s.mem (.ptr (.ctx c) REGS_HOST_SP) ∧
      (arch b clone).SameFrom th (j - 64) s t := by
  obtain ⟨-, hsys, -⟩ := attached_iff.mp h.toAttached
  obtain ⟨hrsp, hkept, hpc, hsaved, hhost', hpres⟩ :=
    lfiRet_spec (b := b) (j := j - 64) h.ctxReg hsys hhost hframe
  obtain ⟨n, hn⟩ := he.saved
  have hint : e.mem (.ptr (.ctx c) REGS_RSP) = .int n := hn
  generalize lfiRet b s = t at hrsp hkept hpc hsaved hhost' hpres ⊢
  exact ⟨hpres.attached h.toAttached (hsaved.trans hint), returns_of he rfl hrsp hkept hpc,
    hsaved, hhost'.trans hhost.symm, fun i hi => hpres.stack hi⟩

theorem law_abort (h : Transitions.Returning (arch b clone) c th (.callback ws) e k
      (lfiCallback b ws) s) (habort : (arch b clone).Aborted c s) {e₀ : State}
    (he : Transitions.Invoked (arch b clone) c th e₀ j) (hk : k = j - 64)
    (hframe : s.mem.Holds (Transitions.hostStack th k) (trampolineFrame c e₀)) :
    let t := lfiCallbackEnd b ws s
    Transitions.Attached (arch b clone) c th t ∧ Transitions.Returns (arch b clone) e₀ t ∧
      t.mem (.ptr (.ctx c) REGS_RSP) = e₀.mem (.ptr (.ctx c) REGS_RSP) ∧
      t.mem (.ptr (.ctx c) REGS_HOST_SP) = Transitions.hostStack th k ∧
      (arch b clone).SameFrom th k s t ∧
      t.mem (.ptr (.ctx c) CTX_ABORT_CALLBACK) = .int 0#64 := by
  obtain ⟨hrsp, hkept, hpc, hsaved, hhost, hclear, hpres⟩ :=
    lfiCallbackEnd_abort_spec ws (callbackReturned h) habort hframe
  obtain ⟨n, hn⟩ := he.saved
  have hint : e₀.mem (.ptr (.ctx c) REGS_RSP) = .int n := hn
  generalize lfiCallbackEnd b ws s = t at hrsp hkept hpc hsaved hhost hclear hpres ⊢
  exact ⟨hpres.attached h.attached (hsaved.trans hint), returns_of he hk hrsp hkept hpc,
    hsaved, hhost, fun i hi => hpres.stack hi, hclear⟩

/-! Invocations. -/

/-- The frame of a trampoline is complete, and the context is the sandbox's own. -/
theorem AtCommon.common (h : AtCommon b c j u) {n : BitVec 64}
    (hr15 : u.mem (.ptr (.ctx c) REGS_R15) = .ptr (.ctxBlock c) 0)
    (hsp : u.mem (.ptr (.ctx c) REGS_RSP) = .int n) :
    let t := lfiTrampolineCommon b u
    t.thread = u.thread ∧ t.reg .r15 = .ptr (.ctxBlock c) 0 ∧ (∃ n, t.reg .rsp = .int n) ∧
      (b.segue = true → b.segueCacheGs = true → t.mem (.ptr (.ctx c) CTX_GS_CACHE) =
        (invokeInfo b u.thread).offset INVOKE_GS_BASE) ∧
      t.mem (.ptr (.ctx c) REGS_HOST_SP) = .ptr (.stack u.thread) (j - 8) ∧
      t.mem (.ptr (.stack u.thread) (j - 8)) = .int n ∧
      ∀ d o, (d = .stack u.thread → j ≤ o) → (d = .ctx c → o ∈ [REGS_R15, REGS_RSP,
          CTX_ABORT_CALLBACK, CTX_ABORT_STATUS]) → (∀ i, d ≠ .tls i) →
        t.mem (.ptr d o) = u.mem (.ptr d o) := by
  obtain ⟨blk, o, hr13, hslot, hblk, hinfo, hoff⟩ := h.slot
  obtain ⟨hrsp₁, -, hreg₁, hthread₁, -, -, hmem₁⟩ := commonSwitch_spec h.rsp h.r11 (by simp)
  let s₁ := exec commonSwitch u
  have hctx : s₁.reg .r11 = .ptr (.ctx c) 0 := (hreg₁ _ (by decide) (by decide)).trans h.r11
  have hrbx : b.segueCacheGs = true →
      s₁.reg .rbx = (invokeInfo b u.thread).offset INVOKE_GS_BASE :=
    fun hb => (hreg₁ _ (by decide) (by decide)).trans (h.rbx hb)
  have hgs : ∀ w, w ≠ (invokeInfo b u.thread).offset INVOKE_GS_BASE →
      w ≠ .ptr (.ctx c) CTX_GS_CACHE → ¬GsCell b s₁ (.ctx c) w := by
    rintro w htls hcache ⟨hb, heq | heq⟩
    · exact hcache heq
    · rw [hrbx hb] at heq
      simp only [invokeInfo, Word.offset_ptr, Int.add_zero] at heq htls
      exact htls heq
  have hcell : ∀ d i, (d = .stack u.thread → i ≠ j - 8) → (d = .ctx c → i ≠ REGS_HOST_SP) →
      s₁.mem (.ptr d i) = u.mem (.ptr d i) := by
    intro d i hstack hhost
    rw [hmem₁, Cells.set_of_ne, Cells.set_of_ne]
    · rintro heq
      obtain ⟨rfl, rfl⟩ := Word.ptr.inj heq
      exact hstack rfl rfl
    · rintro heq
      obtain ⟨rfl, rfl⟩ := Word.ptr.inj heq
      exact hhost rfl rfl
  have hslot₁ : s₁.mem (.ptr blk o) = .ptr (.ctx c) 0 := by
    rw [hcell, hslot]
    · rintro rfl rfl
      exact hoff (j - 8) (by omega) rfl
    · exact fun heq => absurd heq hblk
  have hr13₁ : s₁.reg .r13 = .ptr blk o := (hreg₁ _ (by decide) (by decide)).trans hr13
  have hctxCell : ∀ i, i ≠ CTX_GS_CACHE → ¬GsCell b s₁ (.ctx c) (.ptr (.ctx c) i) :=
    fun i hi => hgs _ (by simp [invokeInfo]) (by simp [hi])
  obtain ⟨hthread₂, -, -, hr15₂, hrsp₂, hmem₂⟩ := commonEnter_spec (b := b) hctx hr13₁ hslot₁
    (hgs _ hinfo (by simp [hblk])) (hctxCell _ (by decide))
  have hout : ∀ d i, (d = .ctx c → i ≠ CTX_GS_CACHE) → (∀ i, d ≠ .tls i) →
      (lfiTrampolineCommon b u).mem (.ptr d i) = s₁.mem (.ptr d i) := by
    intro d i hcache htls
    rw [lfiTrampolineCommon, hmem₂]
    refine commonSegue_mem hctx (hgs _ ?_ ?_)
    · exact fun heq => htls u.thread (Word.ptr.inj heq).1
    · intro heq
      obtain ⟨rfl, rfl⟩ := Word.ptr.inj heq
      exact hcache rfl rfl
  have htop : s₁.mem (.ptr (.stack u.thread) (j - 8)) = .int n := by
    simp [s₁, hmem₁, Cells.set_apply, hsp]
  refine ⟨hthread₂.trans hthread₁, ?_, ?_, ?_, ?_, ?_, fun d i hstack hctx' htls => ?_⟩
  · exact hr15₂.trans ((hcell _ _ (by simp) fun _ => by decide).trans hr15)
  · rw [show s₁.reg .rsp = .int n from hrsp₁.trans hsp] at hrsp₂
    exact ⟨_, hrsp₂⟩
  · intro hsegue hcache
    rw [lfiTrampolineCommon, hmem₂, commonSegue_cache hctx _ hsegue hcache, hrbx hcache]
    rw [hrbx hcache]
    simp [invokeInfo]
  · rw [hout _ _ (fun _ => by decide) (by simp), hmem₁, Cells.set_self]
  · rw [hout _ _ (by simp) (by simp), htop]
  · rw [hout d i _ htls, hcell]
    · intro hd hi
      have hle := hstack hd
      omega
    · intro hd hi
      have hmem := hctx' hd
      rw [hi] at hmem
      exact absurd hmem (by decide)
    · intro hd hi
      have hmem := hctx' hd
      rw [hi] at hmem
      exact absurd hmem (by decide)

theorem law_invoke (ws : Bool) (h : Transitions.Invoked (arch b clone) c th s k) :
    let t := (arch b clone).lfiTrampoline ws s
    Transitions.InBox (arch b clone) c th t ∧
      Transitions.Pushed (arch b clone) c th .invoke k s t ∧
      t.mem (.ptr (.ctx c) REGS_HOST_SP) = Transitions.hostStack th (k - 64) ∧
      t.mem (.ptr (.ctx c) REGS_RSP) = s.mem (.ptr (.ctx c) REGS_RSP) ∧
      ∀ o ∈ [CTX_ABORT_CALLBACK, CTX_ABORT_STATUS],
        t.mem (.ptr (.ctx c) o) = s.mem (.ptr (.ctx c) o) := by
  obtain ⟨blk, o, hinv, hslot, hblk, hinfo⟩ := invoked_of h
  obtain ⟨hcommon, hthread, -, -, hmem, hframe⟩ := hinv.atCommon clone hslot hblk hinfo
  have hth : s.thread = th := h.thread
  obtain ⟨n, hn⟩ := h.saved
  have hsaved : s.mem (.ptr (.ctx c) REGS_RSP) = .int n := hn
  have hr15 : s.mem (.ptr (.ctx c) REGS_R15) = .ptr (.ctxBlock c) 0 :=
    h.linked (_, .ptr (.ctxBlock c) 0) (by simp [arch])
  have hsys : s.mem (.ptr (.ctxBlock c) SYS_CTX_OFFSET) = .ptr (.ctx c) 0 :=
    h.linked (_, .ptr (.ctx c) 0) (by simp [arch])
  let u₀ := lazyCtxClone clone (trampolineEntry b s)
  obtain ⟨u, hu, hcommon', hthread', hmem'⟩ : ∃ u,
      (arch b clone).lfiTrampoline ws s = lfiTrampolineCommon b u ∧
        AtCommon b c (k - 56) u ∧ u.thread = th ∧ u.mem = u₀.mem := by
    cases ws with
    | false => exact ⟨u₀, rfl, hcommon, hthread.trans hth, rfl⟩
    | true =>
        exact ⟨exec loadStructArgs u₀, rfl, hcommon.loadStructArgs,
          (thread_exec _ u₀).trans (hthread.trans hth), mem_exec (by decide) u₀⟩
  have hcell : ∀ i, u.mem (.ptr (.ctx c) i) = s.mem (.ptr (.ctx c) i) := by
    intro i
    rw [hmem']
    exact hmem _ (by intro j _; simp)
  obtain ⟨hthread₁, hr15₁, hsp₁, hcache₁, hhost₁, htop₁, hout₁⟩ :=
    hcommon'.common ((hcell _).trans hr15) ((hcell _).trans hsaved)
  rw [hthread', show k - 56 - 8 = k - 64 by omega] at hhost₁ htop₁
  rw [hthread'] at hcache₁ hout₁
  rw [hu]
  have hstack : ∀ i, k - 56 ≤ i → (lfiTrampolineCommon b u).mem (.ptr (.stack th) i) =
      u₀.mem (.ptr (.stack th) i) := by
    intro i hi
    rw [hout₁ _ i (fun _ => hi) (by simp) (by simp), hmem']
  have hsame : ∀ i, k ≤ i → u₀.mem (.ptr (.stack th) i) = s.mem (.ptr (.stack th) i) := by
    intro i hi
    rw [← hth]
    exact hmem _ (offStack_of_le hi)
  refine ⟨⟨attached_iff.mpr ⟨hthread₁.trans hthread', ?_, ?_, hcache₁, n, ?_⟩, hr15₁, hsp₁⟩,
    ⟨?_, ?_⟩, hhost₁, ?_, fun o ho => ?_⟩
  · rw [hout₁ _ _ (by simp) (by simp) (by simp), hmem', hmem _ (by intro j _; simp), hsys]
  · rw [hout₁ _ _ (by simp) (by simp) (by simp), hcell, hr15]
  · rw [hout₁ _ _ (by simp) (by simp) (by simp), hcell, hsaved]
  · have hret : s.top = s.mem (.ptr (.stack th) k) := congrArg s.mem h.sp
    have hpushed : (lfiTrampolineCommon b u).mem.Holds (.ptr (.stack th) (k - 56))
        [s.reg .rbp, s.reg .rbx, s.reg .r12, s.reg .r13, s.reg .r14, .int 0, s.reg .r15] := by
      rw [hth] at hframe
      exact hframe.congr fun i hi => hstack i hi
    have habove : (lfiTrampolineCommon b u).mem (.ptr (.stack th) k) = s.top := by
      rw [hstack k (by omega), hsame k (le_refl k), hret]
    simp only [Cells.Holds, Word.offset_ptr, Int.sub_eq_add_neg, Int.add_assoc, Int.reduceNeg,
      Int.reduceAdd, and_true] at hpushed htop₁
    change (lfiTrampolineCommon b u).mem.Holds (.ptr (.stack th) (k - 64)) (trampolineFrame c s)
    simp only [Cells.Holds, trampolineFrame, Word.offset_ptr, Int.sub_eq_add_neg, Int.add_assoc,
      Int.reduceNeg, Int.reduceAdd, Int.add_zero, hpushed, htop₁, habove, hsaved, and_self]
  · intro i hi
    exact (hstack i (by omega)).trans (hsame i hi)
  · rw [hout₁ _ _ (by simp) (by simp) (by simp), hcell]
  · rw [hout₁ _ o (by simp) (fun _ => List.mem_cons_of_mem _ (List.mem_cons_of_mem _ ho))
      (by simp), hcell]

/-! `lfi_ctx_run`. -/

theorem ctxEntrySave_spec (hsp : s.reg .rsp = .ptr (.stack th) k)
    (hrsi : s.reg .rsi = .ptr (.ctx c) REGS_HOST_SP) :
    let t := exec ctxEntrySave s
    t.reg .rdi = s.reg .rdi ∧ t.mem (.ptr (.ctx c) REGS_HOST_SP) = .ptr (.stack th) (k - 48) ∧
      t.mem.Holds (.ptr (.stack th) (k - 48)) [s.reg .rbp, s.reg .rbx, s.reg .r12, s.reg .r13,
        s.reg .r14, s.reg .r15] ∧
      ∀ a, a ≠ .ptr (.ctx c) REGS_HOST_SP → (∀ i, i < k → a ≠ .ptr (.stack th) i) →
        t.mem a = s.mem a := by
  simp only [REGS_HOST_SP] at hrsi
  refine ⟨?_, ?_, ?_, fun a hctx hstack => ?_⟩
  · exact reg_exec (by decide) s
  · simp -implicitDefEqProofs [ctxEntrySave, exec1, State.push, State.ea, hsp, hrsi,
      REGS_HOST_SP, Int.sub_eq_add_neg, Int.add_assoc]
  · simp -implicitDefEqProofs [ctxEntrySave, exec1, State.push, State.ea, hsp, hrsi, Cells.Holds,
      Cells.set_apply, Int.sub_eq_add_neg, Int.add_assoc]
  · have hwrites : a ∉ [.ptr (.ctx c) 0, .ptr (.stack th) (k + -8), .ptr (.stack th) (k + -16),
        .ptr (.stack th) (k + -24), .ptr (.stack th) (k + -32), .ptr (.stack th) (k + -40),
        .ptr (.stack th) (k + -48)] := by
      simp only [List.mem_cons, List.not_mem_nil, or_false, not_or]
      exact ⟨hctx, hstack _ (by omega), hstack _ (by omega), hstack _ (by omega),
        hstack _ (by omega), hstack _ (by omega), hstack _ (by omega)⟩
    simp only [List.mem_cons, List.not_mem_nil, or_false, not_or] at hwrites
    simp -implicitDefEqProofs [ctxEntrySave, exec1, State.push, State.ea, hsp, hrsi,
      Cells.set_apply, Int.add_assoc, hwrites]

theorem ctxEntryPku_spec (b : Build) (s : State) :
    (∀ r ∈ [Reg.rsp, .r15], (ctxEntryPku b s).reg r = s.reg r) ∧
      (ctxEntryPku b s).mem = s.mem ∧ (ctxEntryPku b s).thread = s.thread := by
  unfold ctxEntryPku
  cases b.pku with
  | false => exact ⟨fun r hr => reg_exec (by revert r; decide) s, rfl, rfl⟩
  | true =>
      let s₁ := exec [.load REGS_PKEY .rdi .rcx, .load REGS_RDI .rdi .rdi] s
      obtain ⟨hreg, -, hmem, hthread, -⟩ := pkuBoxAccess_spec b s₁
      refine ⟨fun r hr => ?_, hmem, hthread⟩
      have hne : r ≠ .rax ∧ r ≠ .rcx ∧ r ≠ .rdx := by
        revert r
        decide
      calc (exec [.xorl .rax] (pkuBoxAccess b s₁)).reg r = (pkuBoxAccess b s₁).reg r :=
            reg_exec (by revert r; decide) _
        _ = s₁.reg r := hreg r hne.1 hne.2.1 hne.2.2
        _ = s.reg r := reg_exec (by revert r; decide) s

/-- From the loads on, the host sees no change but in its own data. -/
theorem lfiCtxEntry_spec (hrdi : s.reg .rdi = .ptr (.ctx c) 0)
    (hsp : s.reg .rsp = .ptr (.stack th) k) (hrsi : s.reg .rsi = .ptr (.ctx c) REGS_HOST_SP)
    (hcache : b.segue = true → b.segueCacheGs = true →
      ∃ x i, s.mem (.ptr (.ctx c) CTX_GS_CACHE) = .ptr (.tls x) i) :
    let t := lfiCtxEntry b s
    let u := exec ctxEntrySave s
    t.thread = s.thread ∧ t.reg .rsp = s.mem (.ptr (.ctx c) REGS_RSP) ∧
      t.reg .r15 = s.mem (.ptr (.ctx c) REGS_R15) ∧
      ∀ d i, (∀ x, d ≠ .tls x) → t.mem (.ptr d i) = u.mem (.ptr d i) := by
  obtain ⟨hrdi₁, -, -, hmem₁⟩ := ctxEntrySave_spec hsp hrsi
  let s₁ := exec ctxEntrySave s
  let s₂ := exec ctxEntryLoad s₁
  have hmem₂ : s₂.mem = s₁.mem := mem_exec (by decide) s₁
  have hcell : ∀ i, i ≠ REGS_HOST_SP → s₂.mem (.ptr (.ctx c) i) = s.mem (.ptr (.ctx c) i) := by
    intro i hi
    rw [hmem₂]
    exact hmem₁ _ (by simp [hi]) (by simp)
  have hrdi₂ : s₂.reg .rdi = .ptr (.ctx c) 0 := by
    rw [← hrdi, ← hrdi₁]
    exact reg_exec (by decide) s₁
  obtain ⟨hreg₃, hthread₃, hmem₃⟩ := segue_spec (b := b) .r15 hrdi₂ (by
    intro hsegue hgs
    rw [hcell _ (by decide)]
    exact hcache hsegue hgs)
  let s₃ := if b.segue then segGsSet b .rdi .r15 s₂ else s₂
  let s₄ := exec ctxEntryFp s₃
  obtain ⟨hreg₅, hmem₅, hthread₅⟩ := ctxEntryPku_spec b s₄
  let s₅ := ctxEntryPku b s₄
  have hrdi₃ : s₃.reg .rdi = .ptr (.ctx c) 0 := (hreg₃ _ (by decide)).trans hrdi₂
  have hr15 : s₄.reg .r15 = s₃.mem (.ptr (.ctx c) REGS_R15) := by
    simp [s₄, ctxEntryFp, exec1, State.ea, hrdi₃]
  have hrsp : s₂.reg .rsp = s.mem (.ptr (.ctx c) REGS_RSP) := by
    rw [← hcell _ (by decide), hmem₂]
    simp [s₂, ctxEntryLoad, exec1, State.ea, s₁, hrdi₁, hrdi]
  have hentry : lfiCtxEntry b s = exec [.jmp .r11] (exec zeroXmms s₅) := rfl
  have hend : ∀ r, (lfiCtxEntry b s).reg r = s₅.reg r := by
    intro r
    rw [hentry, reg_exec (by simp [Instr.regs]), reg_exec (by simp [zeroXmms, Instr.regs])]
  have hmem : (lfiCtxEntry b s).mem = s₃.mem := by
    rw [hentry, mem_exec (by decide), mem_exec (by decide)]
    exact hmem₅.trans (mem_exec (by decide) s₃)
  have hthread : (lfiCtxEntry b s).thread = s₃.thread := by
    rw [hentry, thread_exec, thread_exec]
    exact hthread₅.trans (thread_exec _ s₃)
  refine ⟨?_, ?_, ?_, fun d i hd => ?_⟩
  · calc (lfiCtxEntry b s).thread = s₃.thread := hthread
      _ = s₂.thread := hthread₃
      _ = s.thread := (thread_exec _ s₁).trans (thread_exec _ s)
  · calc (lfiCtxEntry b s).reg .rsp = s₅.reg .rsp := hend .rsp
      _ = s₃.reg .rsp := (hreg₅ _ (by decide)).trans (reg_exec (by decide) s₃)
      _ = s₂.reg .rsp := hreg₃ _ (by decide)
      _ = _ := hrsp
  · calc (lfiCtxEntry b s).reg .r15 = s₅.reg .r15 := hend .r15
      _ = s₄.reg .r15 := hreg₅ _ (by decide)
      _ = s₃.mem (.ptr (.ctx c) REGS_R15) := hr15
      _ = s₂.mem (.ptr (.ctx c) REGS_R15) := hmem₃ (.ctx c) REGS_R15 (by simp)
      _ = _ := hcell REGS_R15 (by decide)
  · calc (lfiCtxEntry b s).mem (.ptr d i) = s₃.mem (.ptr d i) := congrFun hmem _
      _ = s₂.mem (.ptr d i) := hmem₃ d i hd
      _ = s₁.mem (.ptr d i) := congrFun hmem₂ _

theorem law_run (h : Transitions.Started (arch b clone) c th s k) :
    let t := lfiCtxEntry b s
    Transitions.InBox (arch b clone) c th t ∧
      Transitions.Pushed (arch b clone) c th .run k s t ∧
      t.mem (.ptr (.ctx c) REGS_HOST_SP) = Transitions.hostStack th (k - 48) := by
  obtain ⟨hthread, hsys, hr15, hcache, n, hsaved⟩ := attached_iff.mp h.toAttached
  have hsp : s.reg .rsp = .ptr (.stack th) k := h.sp
  obtain ⟨-, hhost₁, hframe₁, hmem₁⟩ := ctxEntrySave_spec hsp h.arg1
  obtain ⟨hthread₂, hrsp₂, hr15₂, hmem₂⟩ := lfiCtxEntry_spec (b := b) h.arg0 hsp h.arg1
    fun hsegue hgs => ⟨th, _, hcache hsegue hgs⟩
  generalize exec ctxEntrySave s = u at hhost₁ hframe₁ hmem₁ hmem₂
  generalize lfiCtxEntry b s = t at hthread₂ hrsp₂ hr15₂ hmem₂ ⊢
  have hcell : ∀ i, i ≠ REGS_HOST_SP → t.mem (.ptr (.ctx c) i) = s.mem (.ptr (.ctx c) i) := by
    intro i hi
    exact (hmem₂ _ i (by simp)).trans (hmem₁ _ (by simp [hi]) (by simp))
  have hstack : ∀ i, k ≤ i → t.mem (.ptr (.stack th) i) = s.mem (.ptr (.stack th) i) := by
    intro i hi
    refine (hmem₂ _ i (by simp)).trans (hmem₁ _ (by simp) fun m hm heq => ?_)
    obtain ⟨-, rfl⟩ := Word.ptr.inj heq
    omega
  refine ⟨⟨attached_iff.mpr ⟨hthread₂.trans hthread, ?_, ?_, ?_, n, ?_⟩, hr15₂.trans hr15, n, ?_⟩,
    ⟨?_, hstack⟩, (hmem₂ (.ctx c) REGS_HOST_SP (by simp)).trans hhost₁⟩
  · have hkept := hmem₂ (.ctxBlock c) SYS_CTX_OFFSET (by simp)
    rw [hkept, hmem₁ _ (by simp) (by simp), hsys]
  · exact (hcell _ (by decide)).trans hr15
  · intro hsegue hgs
    exact (hcell _ (by decide)).trans (hcache hsegue hgs)
  · exact (hcell _ (by decide)).trans hsaved
  · exact hrsp₂.trans hsaved
  · have htop : t.mem (.ptr (.stack th) k) = s.top :=
      (hstack k (le_refl k)).trans (congrArg s.mem hsp.symm)
    have hpushed : t.mem.Holds (.ptr (.stack th) (k - 48)) [s.reg .rbp, s.reg .rbx, s.reg .r12,
        s.reg .r13, s.reg .r14, s.reg .r15] :=
      hframe₁.congr fun i _ => hmem₂ _ i (by simp)
    simp only [Cells.Holds, Word.offset_ptr, Int.sub_eq_add_neg, Int.add_assoc, Int.reduceNeg,
      Int.reduceAdd, and_true] at hpushed
    change t.mem.Holds (.ptr (.stack th) (k - 48)) (frameWords c .run s)
    simp only [Cells.Holds, frameWords, Word.offset_ptr, Int.sub_eq_add_neg, Int.add_assoc,
      Int.reduceNeg, Int.reduceAdd, Int.add_zero, hpushed, htop, and_self]

theorem law_exit (h : Transitions.Attached (arch b clone) c th s)
    (harg : s.reg .rdi = .ptr (.ctx c) 0) (he : Transitions.Started (arch b clone) c th e j)
    (hhost : (arch b clone).hostSp c s = Transitions.hostStack th (j - 48))
    (hframe : s.mem.Holds (Transitions.hostStack th (j - 48)) (frameWords c .run e)) :
    let t := exec lfiCtxEnd s
    Transitions.Attached (arch b clone) c th t ∧ Transitions.Returns (arch b clone) e t ∧
      t.mem = s.mem := by
  have hmem : (exec lfiCtxEnd s).mem = s.mem := mem_exec (by decide) s
  have hsp : e.reg .rsp = .ptr (.stack th) j := he.sp
  have hhost' : s.mem (.ptr (.ctx c) 0) = .ptr (.stack th) (j - 48) := hhost
  simp only [Cells.Holds, frameWords, Word.offset_ptr, Int.sub_eq_add_neg, Int.add_assoc,
    Int.reduceNeg, Int.reduceAdd] at hframe hhost'
  refine ⟨?_, ⟨?_, ?_, ?_⟩, hmem⟩
  · rw [attached_iff] at h ⊢
    rw [hmem, thread_exec]
    exact h
  · change (exec lfiCtxEnd s).reg .rsp = (e.reg .rsp).offset 8
    simp -implicitDefEqProofs [lfiCtxEnd, exec1, State.drop, State.top, State.ea, harg, hhost', hsp,
      REGS_HOST_SP, Int.add_assoc]
  · change calleeSaved.map (exec lfiCtxEnd s).reg = calleeSaved.map e.reg
    simp -implicitDefEqProofs [lfiCtxEnd, exec1, State.drop, State.top, State.ea, harg, hhost',
      hframe, calleeSaved, REGS_HOST_SP, Int.add_assoc]
  · have htop : s.mem (.ptr (.stack th) j) = e.top := by
      simpa using hframe.2.2.2.2.2.2.1
    change (exec lfiCtxEnd s).pc = e.top
    rw [← htop]
    simp -implicitDefEqProofs [lfiCtxEnd, exec1, State.drop, State.top, State.ea, harg, hhost',
      REGS_HOST_SP, Int.add_assoc]

/-! Runtime calls. -/

theorem calling_of (h : Transitions.InBox (arch b clone) c th s)
    (hhost : (arch b clone).hostSp c s = Transitions.hostStack th k) : Calling c k s := by
  obtain ⟨hthread, hsys, -⟩ := attached_iff.mp h.toAttached
  refine ⟨h.ctxReg, hsys, ?_⟩
  rw [hthread]
  exact hhost

theorem law_syscall (h : Transitions.InBox (arch b clone) c th s)
    (hhost : (arch b clone).hostSp c s = Transitions.hostStack th k) :
    let t := lfiSyscallEntry b s
    Transitions.Attached (arch b clone) c th t ∧
      Transitions.Pushed (arch b clone) c th .syscall k s t ∧
      t.reg .rsp = Transitions.hostStack th (k - 16) ∧
      t.mem (.ptr (.ctx c) REGS_HOST_SP) = s.mem (.ptr (.ctx c) REGS_HOST_SP) ∧
      t.reg .r15 = s.reg .r15 := by
  obtain ⟨-, hrsp, hctx, hkept, hregs, -, -, hcells, hafter, hpres⟩ :=
    lfiSyscallEntry_spec (b := b) (calling_of h hhost)
  generalize lfiSyscallEntry b s = t at hrsp hctx hkept hregs hcells hafter hpres ⊢
  have hthread : s.thread = th := h.thread
  rw [hthread] at hrsp hctx hafter hpres
  obtain ⟨n, hn⟩ := h.boxSp
  have hsaved := hregs (.rsp, REGS_RSP) (by decide)
  have hctx' : t.mem (.ptr (.stack th) (k - 16 + 8)) = .ptr (.ctx c) 0 := by
    rw [show k - 16 + 8 = k - 8 by omega, hctx]
  exact ⟨hpres.attached h.toAttached (hsaved.trans hn), ⟨⟨hafter, hctx', trivial⟩,
    fun i hi => hpres.stack hi⟩, hrsp, hcells _ (by decide), hkept _ (by decide)⟩

theorem law_syscallEnd (h : Transitions.Returning (arch b clone) c th .syscall e k
      (lfiSyscallEntry b) s) :
    let t := lfiSyscallEnd b s
    Transitions.InBox (arch b clone) c th t ∧
      t.mem (.ptr (.ctx c) REGS_HOST_SP) = s.mem (.ptr (.ctx c) REGS_HOST_SP) ∧
      (arch b clone).SameFrom th k s t := by
  obtain ⟨hthread, hsys, hr15, hcache, n, hn⟩ := attached_iff.mp h.attached
  obtain ⟨-, -, -, -, hentry⟩ := law_syscall h.entry h.entrySp
  have hkept : s.reg .r15 = (lfiSyscallEntry b e).reg .r15 :=
    List.map_inj_left.mp h.kept .r15 (by decide)
  have hctxReg : s.reg .r15 = .ptr (.ctxBlock c) 0 := hkept.trans (hentry.trans h.entry.ctxReg)
  have hsp : s.reg .rsp = .ptr (.stack th) (k - 16 + 8) := h.sp
  have hframe : s.mem.Holds (.ptr (.stack th) (k - 16)) (frameWords c .syscall e) := h.frame
  have hhandled : Handled b c k s := by
    refine ⟨?_, ?_, hctxReg, fun hsegue hgs => ⟨th, _, hcache hsegue hgs⟩⟩
    · rw [hthread, hsp, show k - 16 + 8 = k - 8 by omega]
    · rw [hthread, show k - 8 = k - 16 + 8 by omega]
      exact hframe.2.1
  obtain ⟨-, hregs, hkept', -, -, -, -, hthread', hmem⟩ := lfiSyscallEnd_spec hhandled
  have hcell : ∀ i, (lfiSyscallEnd b s).mem (.ptr (.ctx c) i) = s.mem (.ptr (.ctx c) i) :=
    fun i => hmem _ i (by simp) (by simp)
  refine ⟨⟨attached_iff.mpr ⟨hthread'.trans hthread, ?_, (hcell _).trans hr15, ?_, n,
    (hcell _).trans hn⟩, (hkept' _ (by decide)).trans hctxReg, n, ?_⟩, hcell _, ?_⟩
  · rw [hmem _ _ (by simp) fun _ => by decide, hsys]
  · intro hsegue hgs
    rw [hcell, hcache hsegue hgs]
  · exact (hregs (.rsp, REGS_RSP) (by decide)).trans hn
  · exact fun i _ => hmem _ i (by simp) (by simp)

theorem lawful (b : Build) (clone : HostFn) (c th : Nat) : (arch b clone).Lawful c th where
  linkCells p hp := by
    simp only [arch, List.cons_append, List.nil_append, List.mem_cons, Bool.and_eq_true,
      List.mem_ite_nil_right, List.not_mem_nil, or_false] at hp
    rcases hp with rfl | rfl | ⟨-, rfl⟩
    · exact ⟨_, _, rfl, fun h => absurd h.2 (by decide)⟩
    · exact ⟨_, _, rfl, fun h => Block.noConfusion h.1⟩
    · exact ⟨_, _, rfl, fun h => Block.noConfusion h.1⟩
  size_pos kind := by cases kind <;> simp [arch]
  size_le kind e hkind := by
    cases kind with
    | invoke => exact (by decide : (64 : Int) ≤ 8 * 9)
    | run => exact (by decide : (48 : Int) ≤ 8 * 7)
    | callback ws => cases hkind
    | syscall => cases hkind
  le_size kind e hkind := by
    cases kind with
    | invoke => exact absurd rfl hkind
    | run => exact absurd rfl hkind
    | callback ws => exact (by decide : (8 * 4 : Int) ≤ 32)
    | syscall => exact (by decide : (8 * 2 : Int) ≤ 16)
  invoke ws s k h := by
    obtain ⟨hbox, hpush, hhost, -⟩ := law_invoke ws h
    exact ⟨hbox, hpush, hhost⟩
  ret s e k h he hhost hframe := law_ret h he hhost hframe
  callback ws s k h hhost := by
    obtain ⟨hatt, hpush, hsp, hsaved, hhost', -⟩ := law_callback ws h hhost
    exact ⟨hatt, hpush, hsp, hsaved, hhost'⟩
  callbackEnd ws s e k h habort := law_callbackEnd h habort
  abort ws s e k e₀ k₀ h habort he hk hframe _ := law_abort h habort he hk hframe
  syscall s k h hhost := by
    obtain ⟨hatt, hpush, hsp, hhost', -⟩ := law_syscall h hhost
    exact ⟨hatt, hpush, hsp, hhost'⟩
  syscallEnd s e k h := law_syscallEnd h
  run s k h := law_run h
  exit s e k h harg he hhost hframe := by
    obtain ⟨hatt, hret, hmem⟩ := law_exit h harg he hhost hframe
    exact ⟨hatt, hret, congrFun hmem _, fun i _ => congrFun hmem _⟩

end LfiRuntime.X64
