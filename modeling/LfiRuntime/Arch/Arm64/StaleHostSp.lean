import LfiRuntime.Arch.Arm64.Lawful
import LfiRuntime.Arch.Bracketing

/-!
Runs in which `host_sp` is left at a frame that is gone: host code that was
called from the sandbox has entered it again, and nobody has put `host_sp` right.
-/

namespace LfiRuntime.Arm64

open LfiRuntime.BlockMemory
open LfiRuntime.Layout
open LfiRuntime.Runs
open LfiRuntime.Transitions (Cfg Frame Step Label HostCode hostStack)

variable {b : Build} {clone : HostFn} {c th : Nat} {s t u e : State} {k j : Int}
  {fs : List (Frame State)} {f : Frame State} {r : Bool}

/-- `.lfi_ret_internal` leaves the stack pointer above the frame that `host_sp`
points to. -/
theorem sp_lfiRetInternal (hctx : s.x 27 = .ptr (.ctx c) 0)
    (hhost : s.mem (.ptr (.ctx c) REGS_HOST_SP) = hostStack th j) :
    (exec lfiRetInternal s).sp = hostStack th (j + 176) := by
  simp only [REGS_HOST_SP] at hhost
  simp -implicitDefEqProofs [lfiRetInternal, exec1, hctx, hhost, REGS_HOST_SP, Int.add_assoc]

theorem sp_lfiRet (h : Transitions.InBox (arch b clone) c th s)
    (hhost : s.mem (.ptr (.ctx c) REGS_HOST_SP) = hostStack th j) :
    (lfiRet s).sp = hostStack th (j + 176) := by
  obtain ⟨-, hsys, -⟩ := attached_iff.mp h.toAttached
  obtain ⟨hctx, -, hmem⟩ := getCtx_spec (q := 27) h.ctxReg hsys
  rw [← hmem] at hhost
  exact sp_lfiRetInternal hctx hhost

theorem sp_lfiCallbackEnd_abort (ws : Bool) (hctx : s.x 22 = .ptr (.ctx c) 0)
    (habort : s.mem (.ptr (.ctx c) CTX_ABORT_CALLBACK) = .int 1#64)
    (hhost : s.mem (.ptr (.ctx c) REGS_HOST_SP) = hostStack th j) :
    (lfiCallbackEnd b ws s).sp = hostStack th (j + 176) := by
  obtain ⟨hctx₁, hflag, -, -, -, hmem₁⟩ := callbackCheck_spec hctx
  let s₁ := exec callbackCheck s
  obtain ⟨hctx₂, -, -, hkeeps⟩ := callbackAbort_spec th (j := j) hctx₁
  have heq : lfiCallbackEnd b ws s =
      exec lfiRetInternal (exec [.mov REG_BASE (.x 0)] (exec callbackAbort s₁)) := by
    have hset : s₁.x 10 = .int 1 := hflag.trans habort
    exact if_pos hset
  rw [heq]
  apply sp_lfiRetInternal hctx₂
  exact (hkeeps.cell (by decide)).trans ((congrFun hmem₁ _).trans hhost)

/-! Host code. -/

/-- Host code that is about to call a trampoline with its stack pointer at `k`. -/
def hostCall (b : Build) (c th : Nat) (k : Int) (s : State) : State :=
  { s with
    sp := hostStack th k
    mem := (s.mem.set ((invokeInfo b th).offset INVOKE_CTX) (.ptr (.slot 0) 0)).set
      (.ptr (.slot 0) 0) (.ptr (.ctx c) 0) }

/-- Host code that returns to the transition code that called it in `e`. -/
def hostReturn (e : State) (sp : W) (s : State) : State :=
  { s with sp, x := e.x, v := e.v }

theorem mem_hostCall {d : Block} {i : Int} (hslot : d ≠ .slot 0) (htls : ∀ x, d ≠ .tls x) :
    (hostCall b c th k s).mem (.ptr d i) = s.mem (.ptr d i) := by
  simp [hostCall, Cells.set_apply, invokeInfo, hslot, htls]

theorem attached_hostCall (h : Transitions.Attached (arch b clone) c th s) :
    Transitions.Attached (arch b clone) c th (hostCall b c th k s) := by
  rw [attached_iff] at h ⊢
  obtain ⟨hthread, hsys, hx25, n, hn⟩ := h
  refine ⟨hthread, ?_, ?_, n, ?_⟩
  · rwa [mem_hostCall (by simp) (by simp)]
  · rwa [mem_hostCall (by simp) (by simp)]
  · rwa [mem_hostCall (by simp) (by simp)]

theorem invoked_hostCall (h : Transitions.Attached (arch b clone) c th s) :
    Transitions.Invoked (arch b clone) c th (hostCall b c th k s) k := by
  have hatt := attached_hostCall (k := k) h
  refine ⟨hatt.thread, rfl, hatt.linked, hatt.saved, .slot 0, 0, ?_, ?_, ?_, ?_, ?_⟩
  · simp [arch, hostCall, Cells.set_apply, invokeInfo]
  · simp [arch, hostCall]
  · simp
  · simp [arch, invokeInfo]
  · simp [hostStack]

theorem hostCode_hostCall : HostCode (arch b clone) c th fs s (hostCall b c th k s) := by
  have hstack : ∀ i, (hostCall b c th k s).mem (hostStack th i) = s.mem (hostStack th i) :=
    fun i => mem_hostCall (by simp) (by simp)
  have hctx : ∀ i, (hostCall b c th k s).mem (.ptr (.ctx c) i) = s.mem (.ptr (.ctx c) i) :=
    fun i => mem_hostCall (by simp) (by simp)
  exact ⟨rfl, fun _ _ i _ => hstack i, fun _ hatt => attached_hostCall hatt,
    fun _ => hctx REGS_HOST_SP, fun _ _ _ _ => hctx REGS_SP⟩

theorem hostCode_hostReturn (sp : W) :
    HostCode (arch b clone) c th fs s (hostReturn e sp s) := by
  refine ⟨rfl, fun _ _ _ _ => rfl, ?_, fun _ => rfl, fun _ _ _ _ => rfl⟩
  intro _ hatt
  exact ⟨hatt.thread, hatt.linked, hatt.bound, hatt.saved⟩

/-- A context with its block, before anything has run. -/
def fresh (c th : Nat) : State where
  x := fun _ => .int 0
  sp := .int 0
  v := fun _ => (.int 0, .int 0)
  mem := fun a =>
    if a = .ptr (.ctxBlock c) SYS_CTX_OFFSET then .ptr (.ctx c) 0
    else if a = .ptr (.ctx c) (REGS_X 25) then .ptr (.ctxBlock c) 0
    else .int 0
  flags := .host 0
  fpsr := .int 0
  pc := .int 0
  thread := th

theorem attached_fresh : Transitions.Attached (arch b clone) c th (fresh c th) := by
  rw [attached_iff]
  refine ⟨rfl, ?_, ?_, 0, ?_⟩ <;>
    simp [fresh, REGS_X, REGS_SP]

theorem attached_hostReturn (h : Transitions.Attached (arch b clone) c th s) (sp : W) :
    Transitions.Attached (arch b clone) c th (hostReturn e sp s) :=
  ⟨h.thread, h.linked, h.bound, h.saved⟩

theorem kept_hostReturn (sp : W) :
    (arch b clone).kept (hostReturn e sp s) = (arch b clone).kept e := rfl

/-! Host code makes an invocation. -/

theorem region_invoke_hi (e : State) (k : Int) (d : Bool) :
    (Frame.region (arch b clone) c ⟨.invoke, e, k, d⟩).hi = k := by
  simp only [Frame.region, FrameStack.Region.hi, Frame.lo, arch, frameWords, trampolineFrame,
    trampolineSaved, List.length_cons, List.length_nil]
  omega

section Visit

variable {ok : Cfg State → Label → Prop}

variable (k) in
/-- The invocation of a function of the sandbox that returns at once. -/
theorem reaches_visit (hhost : ∀ s', ok ⟨s', fs, r⟩ .host)
    (hinvoke : ∀ s', ok ⟨s', fs, r⟩ (.invoke false)) (hret : ∀ cfg, ok cfg .ret)
    (hfs : Transitions.OnHost fs) (hatt : Transitions.Attached (arch b clone) c th s)
    (hroom : FrameStack.Above (Transitions.regions (arch b clone) c fs) k) :
    ∃ u, Reaches (Step (arch b clone) c th) ok ⟨s, fs, r⟩ ⟨u, Transitions.markDirty fs, r⟩ ∧
      Transitions.Attached (arch b clone) c th u ∧
      u.mem (.ptr (.ctx c) REGS_HOST_SP) = hostStack th (k - 176) ∧
      ∀ i, k ≤ i → u.mem (hostStack th i) = s.mem (hostStack th i) := by
  have hcode : HostCode (arch b clone) c th fs s (hostCall b c th k s) := hostCode_hostCall
  have hcall : Transitions.Invoked (arch b clone) c th (hostCall b c th k s) k :=
    invoked_hostCall hatt
  have hstack : ∀ i, (hostCall b c th k s).mem (hostStack th i) = s.mem (hostStack th i) :=
    fun i => mem_hostCall (by simp) (by simp)
  generalize hostCall b c th k s = e at hcode hcall hstack
  obtain ⟨hbox, hpush, hhostSp, -⟩ := law_invoke false hcall
  have hinvoked : Step (arch b clone) c th ⟨e, fs, r⟩ (.invoke false)
      ⟨(arch b clone).lfiTrampoline false e, ⟨.invoke, e, k, false⟩ :: Transitions.markDirty fs,
        r⟩ := by
    apply Step.invoke false hfs hcall
    rwa [region_invoke_hi]
  generalize (arch b clone).lfiTrampoline false e = t at hbox hpush hhostSp hinvoked
  obtain ⟨hatt', -, -, hsame, hcells⟩ := law_ret hbox hcall hhostSp hpush.frame
  have hreturned : Step (arch b clone) c th
      ⟨t, ⟨.invoke, e, k, false⟩ :: Transitions.markDirty fs, r⟩ .ret
      ⟨lfiRet t, Transitions.markDirty fs, r⟩ := .ret rfl
  generalize lfiRet t = u at hatt' hsame hcells hreturned
  refine ⟨u, ?_, hatt', (hcells _ (by decide)).trans hhostSp, fun i hi => ?_⟩
  · exact (((Reaches.refl _).tail (hhost s) (.host hfs hcode)).tail (hinvoke e) hinvoked).tail
      (hret _) hreturned
  · calc u.mem (hostStack th i) = t.mem (hostStack th i) := hsame i (by omega)
      _ = e.mem (hostStack th i) := hpush.same i hi
      _ = s.mem (hostStack th i) := hstack i

variable (b clone c th k) in
/-- The first invocation. -/
theorem reaches_start (hhost : ∀ s', ok ⟨s', [], false⟩ .host)
    (hinvoke : ∀ s', ok ⟨s', [], false⟩ (.invoke false)) :
    ∃ e t, Reaches (Step (arch b clone) c th) ok ⟨fresh c th, [], false⟩
        ⟨t, [⟨.invoke, e, k, false⟩], false⟩ ∧
      Transitions.Invoked (arch b clone) c th e k ∧ Transitions.InBox (arch b clone) c th t ∧
      t.mem (.ptr (.ctx c) REGS_HOST_SP) = hostStack th (k - 176) := by
  have hnone : Transitions.OnHost ([] : List (Frame State)) := by
    rintro _ ⟨⟩
  have hcode : HostCode (arch b clone) c th [] (fresh c th) (hostCall b c th k (fresh c th)) :=
    hostCode_hostCall
  have hcall : Transitions.Invoked (arch b clone) c th (hostCall b c th k (fresh c th)) k :=
    invoked_hostCall attached_fresh
  generalize hostCall b c th k (fresh c th) = e at hcode hcall
  obtain ⟨hbox, -, hhostSp, -⟩ := law_invoke false hcall
  refine ⟨e, (arch b clone).lfiTrampoline false e, ?_, hcall, hbox, hhostSp⟩
  refine ((Reaches.refl _).tail (hhost _) (.host hnone hcode)).tail (hinvoke e) ?_
  exact .invoke false hnone hcall (by rintro _ ⟨⟩)

end Visit

/-! A handler of a runtime call makes one. -/

theorem nested (cfg : Cfg State) {l : Label}
    (hl : l ∈ [Label.host, .invoke false, .ret, .syscall, .syscallEnd]) :
    Transitions.Nested cfg l := by
  revert l
  simp [Transitions.Nested]

theorem returning_syscall {v : State} (h : Transitions.InBox (arch b clone) c th s)
    (hhost : (arch b clone).hostSp c s = hostStack th k)
    (hatt : Transitions.Attached (arch b clone) c th u)
    (hctx : u.mem (hostStack th (k - 16)) = .ptr (.ctx c) 0)
    (hv : v = hostReturn (lfiSyscallEntry s) (hostStack th (k - 16 + 0)) u) :
    Transitions.Returning (arch b clone) c th .syscall s k lfiSyscallEntry v := by
  rw [hv]
  exact ⟨h, hhost, attached_hostReturn hatt _, rfl, kept_hostReturn _, hctx, trivial⟩

variable (fs f r) in
theorem reaches_handler (hf : f.kind = .invoke) (h : Transitions.InBox (arch b clone) c th s)
    (hhost : s.mem (.ptr (.ctx c) REGS_HOST_SP) = hostStack th k) :
    ∃ u, Reaches (Step (arch b clone) c th) Transitions.Nested ⟨s, f :: fs, r⟩ ⟨u, f :: fs, r⟩ ∧
      Transitions.InBox (arch b clone) c th u ∧
      u.mem (.ptr (.ctx c) REGS_HOST_SP) = hostStack th (k - 16 - 176) := by
  obtain ⟨hatt₁, hpush, -⟩ := law_syscall h hhost
  let g : Frame State := ⟨.syscall, s, k, false⟩
  have hcalled : Step (arch b clone) c th ⟨s, f :: fs, r⟩ .syscall
      ⟨lfiSyscallEntry s, g :: f :: fs, r⟩ :=
    .syscall (by rw [hf]; rfl) hhost
  have hfs : Transitions.OnHost (g :: f :: fs) := by
    rintro _ ⟨⟩
    rfl
  obtain ⟨u, hvisit, hatt₂, hstale, hsame⟩ := reaches_visit (k - 16)
    (fun _ => nested _ (by simp)) (fun _ => nested _ (by simp)) (fun _ => nested _ (by simp))
    hfs hatt₁ (by rintro _ ⟨⟩; exact le_refl _)
  have hctx : u.mem (hostStack th (k - 16)) = .ptr (.ctx c) 0 :=
    (hsame _ (le_refl _)).trans hpush.frame.1
  have hreturning := returning_syscall h hhost hatt₂ hctx rfl
  have hcode : HostCode (arch b clone) c th (Transitions.markDirty (g :: f :: fs)) u
      (hostReturn (lfiSyscallEntry s) (hostStack th (k - 16 + 0)) u) := hostCode_hostReturn _
  have hcell : (hostReturn (lfiSyscallEntry s) (hostStack th (k - 16 + 0)) u).mem
      (.ptr (.ctx c) REGS_HOST_SP) = hostStack th (k - 16 - 176) := hstale
  generalize hostReturn (lfiSyscallEntry s) (hostStack th (k - 16 + 0)) u = v
    at hreturning hcode hcell
  obtain ⟨hbox, hmem⟩ := law_syscallEnd hreturning
  have hended : Step (arch b clone) c th ⟨v, { g with dirty := true } :: f :: fs, r⟩ .syscallEnd
      ⟨lfiSyscallEnd v, f :: fs, r⟩ := .syscallEnd rfl hreturning.sp hreturning.kept
  generalize lfiSyscallEnd v = w at hbox hmem hended
  have hback : Transitions.OnHost (Transitions.markDirty (g :: f :: fs)) := by
    rintro _ ⟨⟩
    rfl
  refine ⟨w, ?_, hbox, ?_⟩
  · have hrun : Reaches (Step (arch b clone) c th) Transitions.Nested ⟨s, f :: fs, r⟩
        ⟨u, Transitions.markDirty (g :: f :: fs), r⟩ :=
      ((Reaches.refl _).tail (nested _ (by simp)) hcalled).trans hvisit
    exact (hrun.tail (nested _ (by simp)) (.host hback hcode)).tail
      (nested _ (by simp)) hended
  · rw [hmem]
    exact hcell

/-- The invocation that the runtime call was made from does not come back to its
caller. -/
theorem not_wellBracketed (b : Build) (clone : HostFn) (c th : Nat) :
    ¬Transitions.WellBracketed (arch b clone) c th Transitions.Nested := by
  intro hright
  obtain ⟨e, s, hstart, hcall, hbox, hhost⟩ := reaches_start b clone c th 1000
    (fun _ => nested _ (by simp)) (fun _ => nested _ (by simp))
  let f : Frame State := ⟨.invoke, e, 1000, false⟩
  obtain ⟨u, hhandler, hbox', hstale⟩ := reaches_handler [] f false rfl hbox hhost
  have hret : Step (arch b clone) c th ⟨u, [⟨.invoke, e, 1000, false⟩], false⟩ .ret
      ⟨lfiRet u, [], false⟩ := .ret rfl
  have hsp := sp_lfiRet hbox' hstale
  generalize lfiRet u = t at hret hsp
  have hbracketed := hright _ _ .ret _ rfl (hstart.trans hhandler)
    (nested _ (by simp)) hret ⟨.invoke, e, 1000, false⟩ rfl
  have hwant : t.sp = e.sp.offset 0 := hbracketed.1.sp
  have hentry : e.sp = hostStack th 1000 := hcall.sp
  rw [hsp, hentry, Word.offset_ptr] at hwant
  obtain ⟨-, heq⟩ := Word.ptr.inj hwant
  omega

/-! A callback makes one. -/

variable (fs f r) in
theorem reaches_callback {ok : Cfg State → Label → Prop} (hok : ∀ cfg, ok cfg (.callback false))
    (hhost : ∀ cfg, ok cfg .host) (hret : ∀ cfg, ok cfg .ret)
    (hinvoke : ∀ (cfg : Cfg State), (∀ g ∈ cfg.frames.head?, g.kind ≠ .syscall) →
      ok cfg (.invoke false))
    (hf : f.kind.entersBox) (h : Transitions.InBox (arch b clone) c th s)
    (hhostSp : s.mem (.ptr (.ctx c) REGS_HOST_SP) = hostStack th k) :
    ∃ u, Reaches (Step (arch b clone) c th) ok ⟨s, f :: fs, r⟩
      ⟨u, ⟨.callback false, s, k, true⟩ :: f :: fs, r⟩ := by
  obtain ⟨hatt, -⟩ := law_callback false h hhostSp
  let g : Frame State := ⟨.callback false, s, k, false⟩
  have hcalled : Step (arch b clone) c th ⟨s, f :: fs, r⟩ (.callback false)
      ⟨lfiCallback false s, g :: f :: fs, r⟩ := .callback false hf hhostSp
  have hfs : Transitions.OnHost (g :: f :: fs) := by
    rintro _ ⟨⟩
    rfl
  obtain ⟨u, hvisit, -⟩ := reaches_visit (k - 32) (fun _ => hhost _)
    (fun _ => hinvoke _ (by rintro _ ⟨⟩; simp [g])) hret hfs hatt
    (by rintro _ ⟨⟩; exact le_refl _)
  exact ⟨u, ((Reaches.refl _).tail (hok _) hcalled).trans hvisit⟩

/-- `lfi_ctx_abort_cb`. -/
def requestAbort (c : Nat) (s : State) : State :=
  { s with mem := s.mem.set (.ptr (.ctx c) CTX_ABORT_CALLBACK) (.int 1) }

theorem hostCode_requestAbort (s : State) :
    HostCode (arch b clone) c th fs s (requestAbort c s) := by
  have hcell : ∀ a, a ≠ .ptr (.ctx c) CTX_ABORT_CALLBACK → (requestAbort c s).mem a = s.mem a :=
    fun a ha => Cells.set_of_ne _ ha
  have hhostSp : Word.ptr (Block.ctx c) REGS_HOST_SP ≠ .ptr (.ctx c) CTX_ABORT_CALLBACK := by
    simp [REGS_HOST_SP, CTX_ABORT_CALLBACK]
  have hsaved : Word.ptr (Block.ctx c) REGS_SP ≠ .ptr (.ctx c) CTX_ABORT_CALLBACK := by
    simp [REGS_SP, CTX_ABORT_CALLBACK]
  refine ⟨rfl, fun _ _ i _ => hcell (hostStack th i) (by simp), ?_, fun _ => hcell _ hhostSp,
    fun _ _ _ _ => hcell _ hsaved⟩
  intro _ hatt
  rw [attached_iff] at hatt ⊢
  rw [hcell _ (by simp), hcell _ (by simp [REGS_X, CTX_ABORT_CALLBACK]), hcell _ hsaved]
  exact hatt

/-- An aborted callback that has made an invocation leaves through the frame of
that one, and no other does. -/
theorem abortedRight_iff {cfg cfg' : Cfg State} (h : Transitions.Inv (arch b clone) c th cfg)
    (hstep : Step (arch b clone) c th cfg .abort cfg') :
    Transitions.AbortedRight (arch b clone) c cfg cfg' ↔ Transitions.CleanAbort cfg .abort := by
  constructor
  · intro hright _ f hf
    cases hstep with
    | @abort s f' g fs r ws hkind hg hsp hkept habort =>
        obtain rfl := Option.some.inj hf
        by_contra hdirty
        have htop : Transitions.TopOk (arch b clone) c th s f' := h.top f' rfl
        have hhost : f'.kind.entersBox = false := by
          rw [hkind]
          rfl
        obtain ⟨_, _, heq, -, hbase⟩ := h.below hhost
        obtain ⟨rfl, rfl⟩ := List.cons.inj heq
        have hret := h.returning hhost hsp hkept
        rw [hkind] at hret
        obtain ⟨-, hctx, -⟩ := returning_regs hret
        unfold Transitions.TopOk at htop
        rw [hkind] at htop
        obtain ⟨-, htop⟩ := htop
        rw [if_pos (Bool.eq_true_of_not_eq_false hdirty)] at htop
        obtain ⟨j, hj, hstale⟩ := htop
        have hend : (lfiCallbackEnd b ws s).sp = hostStack th (j + 176) :=
          sp_lfiCallbackEnd_abort ws hctx habort hstale
        have hentry : g.entry.sp = hostStack th g.base := by
          have hchain : Transitions.FrameOk (arch b clone) c th g fs := h.chain.2.1
          unfold Transitions.FrameOk at hchain
          rw [hg] at hchain
          exact hchain.2.sp
        have hlo : f'.base = g.base - 176 := by
          rw [hbase, Frame.lo, hg]
          rfl
        have hcb : f'.lo (arch b clone) = f'.base - 32 := by
          rw [Frame.lo, hkind]
          rfl
        obtain ⟨⟨hwant, -, -⟩, -⟩ := hright g rfl
        change (lfiCallbackEnd b ws s).sp = g.entry.sp.offset 0 at hwant
        rw [hend, hentry, Word.offset_ptr] at hwant
        obtain ⟨-, heq⟩ := Word.ptr.inj hwant
        omega
  · intro hclean
    exact Transitions.abortedRight_step (lawful b clone c th) h (.inr hclean) hstep

variable (b clone c th s u k fs f r) in
theorem reaches_abort {ok : Cfg State → Label → Prop} (d : Bool) (hhost : ∀ cfg, ok cfg .host)
    (hg : f.kind = .invoke) :
    ∃ v w, Reaches (Step (arch b clone) c th) ok ⟨u, ⟨.callback false, s, k, d⟩ :: f :: fs, r⟩
        ⟨v, ⟨.callback false, s, k, d⟩ :: f :: fs, r⟩ ∧
      Step (arch b clone) c th ⟨v, ⟨.callback false, s, k, d⟩ :: f :: fs, r⟩ .abort
        ⟨w, fs, r⟩ := by
  have hfs : Transitions.OnHost (⟨.callback false, s, k, d⟩ :: f :: fs) := by
    rintro _ ⟨⟩
    rfl
  let u' := hostReturn (lfiCallback false s) (hostStack th (k - 32 + 0)) u
  have hsp : (requestAbort c u').sp = hostStack th (k - 32 + 0) := rfl
  have hkept : (arch b clone).kept (requestAbort c u') =
      (arch b clone).kept (lfiCallback false s) := rfl
  have habort : (arch b clone).Aborted c (requestAbort c u') := Cells.set_self _ _ _
  have hreturned : HostCode (arch b clone) c th (⟨.callback false, s, k, d⟩ :: f :: fs) u u' :=
    hostCode_hostReturn _
  refine ⟨requestAbort c u', _, ?_, .abort false rfl hg hsp hkept habort⟩
  exact ((Reaches.refl _).tail (hhost _) (.host hfs hreturned)).tail (hhost _)
    (.host hfs (hostCode_requestAbort u'))

variable (b clone) in
theorem cleanCalls_of_mem {l : Label} (hl : l ∈ [Label.host, .callback false, .ret])
    (cfg : Cfg State) : Transitions.CleanCalls (arch b clone) cfg l := by
  have hne : l ∉ [.run, .exit] ∧ l.entersBox = false ∧ l ≠ .abort := by
    revert l
    decide
  exact ⟨⟨hne.1, fun h => absurd (hne.2.1.symm.trans h) Bool.false_ne_true⟩,
    .inr fun h => absurd h hne.2.2⟩

variable (b clone) in
theorem cleanCalls_invoke (cfg : Cfg State) (hsys : ∀ g ∈ cfg.frames.head?, g.kind ≠ .syscall) :
    Transitions.CleanCalls (arch b clone) cfg (.invoke false) :=
  ⟨⟨by simp, fun _ => hsys⟩, .inr (by simp [Transitions.CleanAbort])⟩

/-- A callback that has made an invocation is not aborted as it should be. -/
theorem not_abortsRight (b : Build) (clone : HostFn) (c th : Nat) :
    ¬Transitions.AbortsRight (arch b clone) c th Transitions.Calls := by
  intro hright
  have hcall {l : Label} (hl : l ∈ [Label.host, .callback false, .ret]) (cfg : Cfg State) :
      Transitions.CleanCalls (arch b clone) cfg l := cleanCalls_of_mem b clone hl cfg
  have hinvoke := cleanCalls_invoke b clone
  obtain ⟨e, s, hstart, -, hbox, hhostSp⟩ := reaches_start b clone c th 1000
    (fun _ => hcall (by simp) _) (fun _ => hinvoke _ (by rintro _ ⟨⟩))
  let f : Frame State := ⟨.invoke, e, 1000, false⟩
  obtain ⟨u, hcallback⟩ := reaches_callback [] f false (hcall (by simp)) (hcall (by simp))
    (hcall (by simp)) hinvoke rfl hbox hhostSp
  obtain ⟨v, w, hhost, habort⟩ := reaches_abort b clone c th s u (1000 - 176) [] f false true
    (hcall (by simp)) rfl
  have hrun := hstart.trans (hcallback.trans hhost)
  have hinv := Transitions.inv_of_cleanCalls (lawful b clone c th) rfl hrun
  have hclean := (abortedRight_iff hinv habort).mp
    (hright _ _ _ rfl (hrun.mono fun _ _ h => h.1) habort)
  exact Bool.noConfusion (hclean rfl _ rfl)

/-! And `lfi_ctx_exit` from one. -/

variable (b clone c th k r) in
theorem reaches_run {ok : Cfg State → Label → Prop} (hhost : ∀ cfg, ok cfg .host)
    (hrun : ∀ s', ok ⟨s', [], r⟩ .run) :
    ∃ e t, Reaches (Step (arch b clone) c th) ok ⟨fresh c th, [], r⟩
        ⟨t, [⟨.run, e, k, false⟩], true⟩ ∧
      Transitions.InBox (arch b clone) c th t ∧
      t.mem (.ptr (.ctx c) REGS_HOST_SP) = hostStack th (k - 176) := by
  have hnone : Transitions.OnHost ([] : List (Frame State)) := by
    rintro _ ⟨⟩
  let e : State := { fresh c th with
    sp := hostStack th k
    x := fun n => if n = 0 then .ptr (.ctx c) 0 else .ptr (.ctx c) REGS_HOST_SP }
  have hatt : Transitions.Attached (arch b clone) c th (fresh c th) := attached_fresh
  have hstarted : Transitions.Started (arch b clone) c th e k :=
    ⟨⟨rfl, hatt.linked, hatt.bound, hatt.saved⟩, rfl, rfl, rfl⟩
  have hcode : HostCode (arch b clone) c th [] (fresh c th) e :=
    ⟨rfl, by rintro _ ⟨⟩, fun h => absurd rfl h, fun h => absurd rfl h, by rintro _ ⟨⟩⟩
  obtain ⟨hbox, -, hhostSp⟩ := law_run hstarted
  refine ⟨e, lfiCtxEntry e, ?_, hbox, hhostSp⟩
  exact ((Reaches.refl _).tail (hhost _) (.host hnone hcode)).tail (hrun e)
    (.run hnone hstarted (by rintro _ ⟨⟩))

/-- A run of careful steps to a call of `lfi_ctx_exit` that is not right. -/
theorem exists_not_exitRight (b : Build) (clone : HostFn) (c th : Nat) :
    ∃ cfg, Reaches (Step (arch b clone) c th) (Transitions.Careful (arch b clone))
        ⟨fresh c th, [], false⟩ cfg ∧ Transitions.OnHost cfg.frames ∧
      ¬Transitions.ExitRight (arch b clone) c th cfg := by
  have hhost (cfg : Cfg State) : Transitions.Careful (arch b clone) cfg .host := trivial
  obtain ⟨e, s, hstart, hbox, hhostSp⟩ := reaches_run b clone c th 1000 false hhost
    (fun _ => by rintro _ ⟨⟩)
  let f : Frame State := ⟨.run, e, 1000, false⟩
  obtain ⟨u, hcallback⟩ := reaches_callback [] f true (fun _ => trivial) hhost
    (fun _ => trivial) (fun _ h => h) rfl hbox hhostSp
  have hrun := hstart.trans hcallback
  have hfs : Transitions.OnHost
      [⟨.callback false, s, 1000 - 176, true⟩, (⟨.run, e, 1000, false⟩ : Frame State)] := by
    rintro _ ⟨⟩
    rfl
  refine ⟨_, hrun, hfs, fun hright => ?_⟩
  obtain ⟨f, g, fs, heq, -, hclean⟩ :=
    (Transitions.exitsExact (lawful b clone c th) _ _ rfl hrun hfs).mp hright rfl
  obtain ⟨rfl, -⟩ := List.cons.inj heq
  rcases hclean with hkind | ⟨-, hdirty⟩
  · cases hkind
  · cases hdirty

end LfiRuntime.Arm64
