import LfiRuntime.Arch.Nesting

/-!
What a nested run puts right again: returns from invocations and callbacks,
aborted callbacks, and where `lfi_ctx_exit` finds `host_sp`.
-/

namespace LfiRuntime.Transitions

open LfiRuntime.BlockMemory
open LfiRuntime.FrameStack
open LfiRuntime.Layout
open LfiRuntime.Runs

/-- The transitions from the host into the sandbox. -/
def Label.entersBox : Label → Bool
  | .invoke _ | .run => true
  | _ => false

variable {S : Type} (A : Arch S) (c th : Nat)

/-- Invocations, callbacks and runtime calls, with no abort and no exit. -/
def Nested (_ : Cfg S) (l : Label) : Prop := l ∉ [.abort, .run, .exit]

/-- A runtime call handler does not enter the sandbox. -/
def LeafHandlers (cfg : Cfg S) (l : Label) : Prop :=
  l.entersBox → ∀ f ∈ cfg.frames.head?, f.kind ≠ .syscall

/-- What the step out of an invocation, or of a callback, restores. -/
def Bracketed (cfg : Cfg S) (l : Label) (cfg' : Cfg S) : Prop :=
  match l with
  | .ret => ∀ f ∈ cfg.frames.head?,
      Returns A f.entry cfg'.state ∧ A.savedSp c cfg'.state = A.savedSp c f.entry
  | .callbackEnd => ∀ f ∈ cfg.frames.head?,
      A.sp cfg'.state = (A.sp f.entry).offset A.retPop ∧
        A.boxKept cfg'.state = A.boxKept f.entry ∧
        ∀ g ∈ cfg'.frames.head?, A.hostSp c cfg'.state = hostStack th (g.lo A)
  | _ => True

/-- Every step of every run on the context restores what it has to. -/
def WellBracketed (ok : Cfg S → Label → Prop) : Prop :=
  ∀ s cfg l cfg', A.thread s = th → Reaches (Step A c th) ok ⟨s, [], false⟩ cfg →
    ok cfg l → Step A c th cfg l cfg' → Bracketed A c th cfg l cfg'

/-- An invocation that a callback made keeps the stack pointer of the callback. -/
def Saves (f g : Frame S) : Prop :=
  f.kind = .invoke → ∀ ws, g.kind = .callback ws → A.savedSp c f.entry = A.sp g.entry

/-- Where the stack pointers of the callbacks are saved. -/
structure SpOk (cfg : Cfg S) : Prop where
  chain : cfg.frames.IsChain (Saves A c)
  top : ∀ f ∈ cfg.frames.head?, ∀ ws, f.kind = .callback ws →
    A.savedSp c cfg.state = A.sp f.entry

variable {A c th} {s t : S} {f g : Frame S} {fs : List (Frame S)} {r r' : Bool} {l : Label}
  {cfg cfg' : Cfg S}

/-- Nothing is to be shown of code in the sandbox. -/
theorem spOk_of_entersBox (hf : f.kind.entersBox) (hchain : (f :: fs).IsChain (Saves A c)) :
    SpOk A c ⟨t, f :: fs, r⟩ := by
  refine ⟨hchain, ?_⟩
  rintro _ ⟨⟩ ws hws
  rw [hws] at hf
  cases hf

theorem isChain_markDirty (h : (f :: fs).IsChain (Saves A c)) :
    (f :: markDirty fs).IsChain (Saves A c) := by
  cases fs with
  | nil => exact h
  | cons g fs =>
      obtain ⟨hhead, htail⟩ := List.isChain_cons_cons.mp h
      refine List.isChain_cons_cons.mpr ⟨hhead, ?_⟩
      cases fs with
      | nil => exact List.isChain_singleton _
      | cons p fs =>
          obtain ⟨hsaves, hrest⟩ := List.isChain_cons_cons.mp htail
          exact List.isChain_cons_cons.mpr ⟨hsaves, hrest⟩

theorem spOk_enter (h : SpOk A c ⟨s, fs, r⟩) {kind : Kind} (hkind : kind.entersBox) (k : Int) :
    SpOk A c ⟨t, ⟨kind, s, k, false⟩ :: markDirty fs, r'⟩ := by
  apply spOk_of_entersBox hkind
  apply isChain_markDirty
  cases fs with
  | nil => exact List.isChain_singleton _
  | cons g fs => exact List.isChain_cons_cons.mpr ⟨fun _ ws hws => h.top g rfl ws hws, h.chain⟩

theorem spOk_ret (h : SpOk A c ⟨s, f :: fs, r⟩) (hf : f.kind = .invoke)
    (hsaved : A.savedSp c t = A.savedSp c f.entry) : SpOk A c ⟨t, fs, r⟩ := by
  refine ⟨h.chain.tail, ?_⟩
  intro g hg ws hws
  cases fs with
  | nil => cases hg
  | cons p fs =>
      obtain rfl := Option.some.inj hg
      obtain ⟨hsaves, -⟩ := List.isChain_cons_cons.mp h.chain
      rw [hsaved]
      exact hsaves hf ws hws

theorem spOk_leave (h : SpOk A c ⟨s, f :: fs, r⟩) {kind : Kind} {k : Int}
    (hsaved : ∀ ws, kind = .callback ws → A.savedSp c t = A.sp s)
    (hkind : kind.entersBox = false) : SpOk A c ⟨t, ⟨kind, s, k, false⟩ :: f :: fs, r⟩ := by
  constructor
  · refine List.isChain_cons_cons.mpr ⟨?_, h.chain⟩
    rintro rfl
    cases hkind
  · rintro _ ⟨⟩ ws hws
    exact hsaved ws hws

theorem spOk_resume (h : SpOk A c ⟨s, f :: fs, r⟩)
    (hbelow : ∃ g gs, fs = g :: gs ∧ g.kind.entersBox) : SpOk A c ⟨t, fs, r⟩ := by
  obtain ⟨g, gs, rfl, hg⟩ := hbelow
  exact spOk_of_entersBox hg h.chain.tail

theorem spOk_step (hA : A.Lawful c th) (hinv : Inv A c th cfg) (h : SpOk A c cfg)
    (hok : Nested cfg l) (hstep : Step A c th cfg l cfg') : SpOk A c cfg' := by
  cases hstep with
  | host hfs hcode =>
      refine ⟨h.chain, ?_⟩
      intro f hf ws hws
      exact (hcode.saved f hf ws hws).trans (h.top f hf ws hws)
  | box hf hcode => exact spOk_of_entersBox hf h.chain
  | invoke ws hfs hcall hroom => exact spOk_enter h rfl _
  | ret hf => exact spOk_ret h hf (hinv.ret hA hf).2.2.1
  | callback ws hf hsp =>
      obtain ⟨hbox, -⟩ := (topOk_of_entersBox hf).mp (hinv.top _ rfl)
      exact spOk_leave h (fun _ _ => (hA.callback ws _ _ hbox hsp).2.2.2.1) rfl
  | callbackEnd ws hf hsp hkept habort =>
      obtain ⟨g, gs, heq, hg, -⟩ := hinv.below (by rw [hf]; rfl)
      exact spOk_resume h ⟨g, gs, heq, hg⟩
  | syscall hf hsp => exact spOk_leave h (by simp) rfl
  | syscallEnd hf hsp hkept =>
      obtain ⟨g, gs, heq, hg, -⟩ := hinv.below (by rw [hf]; rfl)
      exact spOk_resume h ⟨g, gs, heq, hg⟩
  | abort ws hf hg hsp hkept habort => exact absurd hok (by simp [Nested])
  | run hfs hcall hroom => exact absurd hok (by simp [Nested])
  | exit hf hg harg => exact absurd hok (by simp [Nested])

theorem careful_of_nested (h : Nested cfg l) (hleaf : LeafHandlers cfg l) :
    Careful A cfg l := by
  cases l
  case invoke ws => exact hleaf rfl
  all_goals first | trivial | exact absurd h (by simp [Nested])

/-- Back in the sandbox with its registers, above the frame it was entered with. -/
theorem Inv.callbackEnd (hA : A.Lawful c th) (h : Inv A c th ⟨s, f :: fs, r⟩) {ws : Bool}
    (hf : f.kind = .callback ws) (hsp : A.sp s = hostStack th (f.lo A + A.retPop))
    (hkept : A.kept s = A.kept (A.lfiCallback ws f.entry)) (habort : ¬A.Aborted c s) :
    A.sp (A.lfiCallbackEnd ws s) = (A.savedSp c s).offset A.retPop ∧
      A.boxKept (A.lfiCallbackEnd ws s) = A.boxKept f.entry ∧
      ∀ g ∈ fs.head?, A.hostSp c (A.lfiCallbackEnd ws s) = hostStack th (g.lo A) := by
  have hhost : f.kind.entersBox = false := by
    rw [hf]
    rfl
  have hret := h.returning hhost hsp hkept
  rw [hf] at hret
  obtain ⟨-, hsp', hbox, -, hhostSp, -⟩ := hA.callbackEnd ws s _ _ hret habort
  refine ⟨hsp', hbox, ?_⟩
  obtain ⟨g, gs, rfl, -, hbase⟩ := h.below hhost
  rintro _ ⟨⟩
  rw [hhostSp, hbase]

theorem bracketed_step (hA : A.Lawful c th) (hinv : Inv A c th cfg) (h : SpOk A c cfg)
    (hstep : Step A c th cfg l cfg') : Bracketed A c th cfg l cfg' := by
  cases hstep
  case ret s f fs r hf =>
    rintro _ ⟨⟩
    obtain ⟨-, hreturns, hsaved, -⟩ := hinv.ret hA hf
    exact ⟨hreturns, hsaved⟩
  case callbackEnd s f fs r ws hf hsp hkept habort =>
    rintro _ ⟨⟩
    obtain ⟨hsp', hbox, hhostSp⟩ := hinv.callbackEnd hA hf hsp hkept habort
    refine ⟨?_, hbox, hhostSp⟩
    rw [hsp', h.top f rfl ws hf]
  all_goals trivial

/-- In every run in which the handlers of runtime calls leave the sandbox alone. -/
theorem wellBracketed (hA : A.Lawful c th) :
    WellBracketed A c th fun cfg l => Nested cfg l ∧ LeafHandlers cfg l := by
  intro s cfg l cfg' hthread hrun _ hstep
  have hstart : Inv A c th ⟨s, [], false⟩ ∧ SpOk A c ⟨s, [], false⟩ :=
    ⟨inv_start hthread, ⟨List.isChain_nil, by rintro _ ⟨⟩⟩⟩
  have hkeep : ∀ cfg l cfg', Inv A c th cfg ∧ SpOk A c cfg →
      Nested cfg l ∧ LeafHandlers cfg l → Step A c th cfg l cfg' →
        Inv A c th cfg' ∧ SpOk A c cfg' := by
    rintro cfg l cfg' ⟨hinv, hsp⟩ ⟨hnested, hleaf⟩ hstep
    exact ⟨inv_step hA hinv (careful_of_nested hnested hleaf) hstep,
      spOk_step hA hinv hsp hnested hstep⟩
  obtain ⟨hinv, hsp⟩ := hrun.invariant hstart hkeep
  exact bracketed_step hA hinv hsp hstep

/-! Aborted callbacks. -/

variable (A c) in
/-- An aborted callback leaves through the invocation that it was made from. -/
def AbortedRight (cfg cfg' : Cfg S) : Prop :=
  ∀ g ∈ cfg.frames.tail.head?, Returns A g.entry cfg'.state ∧
    A.savedSp c cfg'.state = A.savedSp c g.entry ∧
    A.mem cfg'.state (.ptr (.ctx c) A.abortCell) = .int 0#64

/-- Invocations, callbacks and runtime calls whose handlers leave the sandbox
alone, with callbacks aborted or not. -/
def Calls (cfg : Cfg S) (l : Label) : Prop := l ∉ [.run, .exit] ∧ LeafHandlers cfg l

/-- The callback that is aborted has not entered the sandbox itself. -/
def CleanAbort (cfg : Cfg S) (l : Label) : Prop :=
  l = .abort → ∀ f ∈ cfg.frames.head?, f.dirty = false

variable (A c th) in
/-- Every callback that is aborted, in every run, leaves as it should. -/
def AbortsRight (ok : Cfg S → Label → Prop) : Prop :=
  ∀ s cfg cfg', A.thread s = th → Reaches (Step A c th) ok ⟨s, [], false⟩ cfg →
    Step A c th cfg .abort cfg' → AbortedRight A c cfg cfg'

variable (A) in
/-- As `Calls`, where an abort that does not put `host_sp` right is clean. -/
def CleanCalls (cfg : Cfg S) (l : Label) : Prop :=
  Calls cfg l ∧ (A.swaps = true ∨ CleanAbort cfg l)

theorem careful_of_cleanCalls (h : CleanCalls A cfg l) : Careful A cfg l := by
  obtain ⟨hcalls, hclean⟩ := h
  cases l
  case invoke ws => exact hcalls.2 rfl
  case abort => exact hclean.imp id fun h => h rfl
  all_goals first | trivial | exact absurd hcalls.1 (by simp)

theorem abortedRight_step (hA : A.Lawful c th) (hinv : Inv A c th cfg)
    (hclean : A.swaps = true ∨ CleanAbort cfg .abort) (hstep : Step A c th cfg .abort cfg') :
    AbortedRight A c cfg cfg' := by
  cases hstep with
  | abort ws hf hg hsp hkept habort =>
      rintro _ ⟨⟩
      obtain ⟨-, hreturns, hsaved, -, -, hclear⟩ := hinv.abort hA hf hg hsp hkept habort
        (hinv.hostSp_abort hf (hclean.imp id fun h => h rfl _ rfl))
      exact ⟨hreturns, hsaved, hclear⟩

theorem inv_of_cleanCalls (hA : A.Lawful c th) (hthread : A.thread s = th)
    (hrun : Reaches (Step A c th) (CleanCalls A) ⟨s, [], false⟩ cfg) : Inv A c th cfg := by
  apply inv_of_reaches hA (inv_start hthread)
  exact hrun.mono fun _ _ h => careful_of_cleanCalls h

/-! `lfi_ctx_exit`. -/

/-- The run that host code is in: the one that was entered last. -/
def activeRun (fs : List (Frame S)) : Option (Frame S) := fs.find? (·.kind = .run)

variable (A c th) in
/-- A call of `lfi_ctx_exit` aborts, or pops the frame of the active run. -/
def ExitRight (cfg : Cfg S) : Prop :=
  cfg.inCtxRun = true → ∃ g, activeRun cfg.frames = some g ∧
    A.hostSp c cfg.state = hostStack th (g.lo A) ∧
    (A.arg0 cfg.state = .ptr (.ctx c) 0 → Returns A g.entry (A.lfiCtxEnd cfg.state))

variable (A) in
/-- It is called by a handler of a runtime call, or by a callback that has left
`host_sp` alone, from the sandbox code that `lfi_ctx_run` started. -/
def ExitClean (cfg : Cfg S) : Prop :=
  cfg.inCtxRun = true → ∃ f g fs, cfg.frames = f :: g :: fs ∧ g.kind = .run ∧
    (f.kind = .syscall ∨ (A.swaps = false ∧ f.dirty = false))

theorem activeRun_cons_of_ne (hf : f.kind ≠ .run) : activeRun (f :: fs) = activeRun fs := by
  simp [activeRun, hf]

/-- Frames further out are higher on the stack. -/
theorem Inv.lo_lt (hA : A.Lawful c th) (h : Inv A c th ⟨s, f :: fs, r⟩) (hg : g ∈ fs) :
    f.lo A < g.lo A := by
  have hle : (f.region A c).hi ≤ (g.region A c).lo :=
    h.stacked.hi_le (List.mem_map_of_mem hg)
  have hpos := hA.size_pos f.kind
  rcases Bool.eq_false_or_eq_true f.kind.entersBox with hf | hf
  · have hlt := f.lo_lt_hi (c := c) hA hf
    simp only [Frame.region] at hle hlt
    omega
  · obtain ⟨p, ps, rfl, hp, hbase⟩ := h.below hf
    have hlo : f.lo A < p.lo A := by
      simp only [Frame.lo] at hbase ⊢
      omega
    rcases List.mem_cons.mp hg with rfl | hg
    · exact hlo
    · have hup : (p.region A c).hi ≤ (g.region A c).lo :=
        h.stacked.pop.hi_le (List.mem_map_of_mem hg)
      have hlt := p.lo_lt_hi (c := c) hA hp
      simp only [Frame.region] at hup hlt
      omega

/-- Where `host_sp` is the frame of the active run, nothing else is above it. -/
theorem exitClean_of_hostSp (hA : A.Lawful c th) (h : Inv A c th cfg) (hfs : OnHost cfg.frames)
    (hg : activeRun cfg.frames = some g)
    (hhostSp : A.hostSp c cfg.state = hostStack th (g.lo A)) : ExitClean A cfg := by
  intro _
  obtain ⟨s, fs, r⟩ := cfg
  cases fs with
  | nil => cases hg
  | cons f fs =>
      have hf : f.kind.entersBox = false := hfs f rfl
      have hne : f.kind ≠ .run := by
        intro hrun
        rw [hrun] at hf
        cases hf
      simp only [activeRun_cons_of_ne hne] at hg
      have hmem : g ∈ fs := List.mem_of_find?_eq_some hg
      have hlt := h.lo_lt hA hmem
      obtain ⟨p, ps, rfl, hp, hbase⟩ := h.below hf
      have hsame : f.base = g.lo A → p.kind = .run := by
        intro heq
        by_contra hnot
        rw [activeRun_cons_of_ne hnot] at hg
        have hup : (p.region A c).hi ≤ (g.region A c).lo :=
          h.stacked.pop.hi_le (List.mem_map_of_mem (List.mem_of_find?_eq_some hg))
        have hlt := p.lo_lt_hi (c := c) hA hp
        simp only [Frame.region] at hup hlt
        omega
      have htop : TopOk A c th s f := h.top f rfl
      have hchain : FrameOk A c th f (p :: ps) := h.chain.1
      unfold TopOk at htop
      unfold FrameOk at hchain
      cases hk : f.kind with
      | invoke => simp [hk, Kind.entersBox] at hf
      | run => exact absurd hk hne
      | syscall =>
          rw [hk] at htop
          obtain ⟨-, heq⟩ := Word.ptr.inj (htop.2.2.symm.trans hhostSp)
          exact ⟨f, p, ps, rfl, hsame heq, .inl hk⟩
      | callback ws =>
          rw [hk] at htop hchain
          obtain ⟨-, htop⟩ := htop
          split at htop
          · obtain ⟨j, hj, heq⟩ := htop
            obtain ⟨-, rfl⟩ := Word.ptr.inj (heq.symm.trans hhostSp)
            omega
          · rename_i hdirty
            split at htop
            · obtain ⟨n, hn⟩ := hchain.1.boxSp
              rw [hn, hhostSp] at htop
              cases htop
            · rename_i hswaps
              obtain ⟨-, heq⟩ := Word.ptr.inj (htop.symm.trans hhostSp)
              exact ⟨f, p, ps, rfl, hsame heq,
                .inr ⟨Bool.eq_false_of_not_eq_true hswaps, Bool.eq_false_of_not_eq_true hdirty⟩⟩

theorem exitRight_iff (hA : A.Lawful c th) (h : Inv A c th cfg) (hfs : OnHost cfg.frames) :
    ExitRight A c th cfg ↔ ExitClean A cfg := by
  constructor
  · intro hright hrun
    obtain ⟨g, hg, hhostSp, -⟩ := hright hrun
    exact exitClean_of_hostSp hA h hfs hg hhostSp hrun
  · intro hclean hrun
    obtain ⟨s, fs, r⟩ := cfg
    obtain ⟨f, g, fs, rfl, hg, hwhere⟩ := hclean hrun
    have hf : f.kind.entersBox = false := hfs f rfl
    have hne : f.kind ≠ .run := by
      intro heq
      rw [heq] at hf
      cases hf
    obtain ⟨hatt, hhostSp⟩ := h.hostSp_clean hf hwhere
    refine ⟨g, ?_, hhostSp, fun harg => (h.exit hA hg harg hatt hhostSp).2.1⟩
    simp only [activeRun_cons_of_ne hne]
    simp [activeRun, hg]

variable (A c th) in
/-- In every run `lfi_ctx_exit` is right just where its call is clean. -/
def ExitsExact : Prop :=
  ∀ s cfg, A.thread s = th → Reaches (Step A c th) (Careful A) ⟨s, [], false⟩ cfg →
    OnHost cfg.frames → (ExitRight A c th cfg ↔ ExitClean A cfg)

theorem exitsExact (hA : A.Lawful c th) : ExitsExact A c th := by
  intro s cfg hthread hrun hfs
  exact exitRight_iff hA (inv_of_reaches hA (inv_start hthread) hrun) hfs

/-- Where every abort puts `host_sp` right, every abort is right. -/
theorem abortsRight (hA : A.Lawful c th) (hswaps : A.swaps = true) :
    AbortsRight A c th Calls := by
  intro s cfg cfg' hthread hrun hstep
  have hinv := inv_of_cleanCalls hA hthread (hrun.mono fun _ _ h => ⟨h, .inl hswaps⟩)
  exact abortedRight_step hA hinv (.inl hswaps) hstep

end LfiRuntime.Transitions
