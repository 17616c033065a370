import LfiRuntime.Arch.Transitions

/-!
Runs of transitions on one context of one thread. The frames of a
configuration are the transitions not yet undone, innermost first; the code
does not see them, only the words they left on the host stack.
-/

namespace LfiRuntime.Transitions

open LfiRuntime.BlockMemory
open LfiRuntime.FrameStack
open LfiRuntime.Layout
open LfiRuntime.Runs

structure Frame (S : Type) where
  kind : Kind
  /-- The state at the entry of the transition. -/
  entry : S
  /-- The host stack pointer that the frame was pushed from. -/
  base : Int
  /-- The code running above the frame has entered the sandbox itself. -/
  dirty : Bool

structure Cfg (S : Type) where
  state : S
  frames : List (Frame S)
  inCtxRun : Bool

inductive Label
  | host
  | box
  | invoke (withStruct : Bool)
  | ret
  | callback (withStruct : Bool)
  | callbackEnd
  | abort
  | syscall
  | syscallEnd
  | run
  | exit
deriving DecidableEq, Repr

variable {S : Type} (A : Arch S) (c th : Nat)

def Frame.lo (f : Frame S) : Int := f.base - A.size f.kind

def Frame.region (f : Frame S) : Region Block := ⟨f.lo A, A.words c f.kind f.entry⟩

def regions (fs : List (Frame S)) : List (Region Block) := fs.map (Frame.region A c)

/-- Host code runs: at the start, or above a callback or a runtime call. -/
def OnHost (fs : List (Frame S)) : Prop := ∀ f ∈ fs.head?, f.kind.entersBox = false

/-- Host code keeps its hands off what transitions left: the stack from the
innermost frame up, `host_sp`, and the stack pointer that a callback saved. -/
structure HostCode (fs : List (Frame S)) (s t : S) : Prop where
  thread : A.thread t = A.thread s
  stack : Untouched (A.mem s) (A.mem t) (.stack th) (regions A c fs)
  attached : fs ≠ [] → Attached A c th s → Attached A c th t
  hostSp : fs ≠ [] → A.hostSp c t = A.hostSp c s
  saved : ∀ f ∈ fs.head?, ∀ ws, f.kind = .callback ws → A.savedSp c t = A.savedSp c s

/-- Sandbox code does anything to its registers but the reserved ones, and to its
own memory, of which the host objects hold only the `ctxreg` array. -/
structure BoxCode (s t : S) : Prop where
  thread : A.thread t = A.thread s
  ctxReg : A.ctxReg t = A.ctxReg s
  boxSp : ∃ n, A.sp t = .int n
  mem : ∀ b o, ¬(b = .ctxBlock c ∧ 0 ≤ o) → A.mem t (.ptr b o) = A.mem s (.ptr b o)

def markDirty : List (Frame S) → List (Frame S)
  | [] => []
  | f :: fs => { f with dirty := true } :: fs

/-- The steps. `run` is a call of `lfi_ctx_run`, which sets `in_ctx_run`, enters
the sandbox, and clears it again when `exit`, a call of `lfi_ctx_exit`, has
returned there. -/
inductive Step : Cfg S → Label → Cfg S → Prop
  | host {s t fs r} (hfs : OnHost fs) (hcode : HostCode A c th fs s t) :
      Step ⟨s, fs, r⟩ .host ⟨t, fs, r⟩
  | box {s t f fs r} (hf : f.kind.entersBox) (hcode : BoxCode A c s t) :
      Step ⟨s, f :: fs, r⟩ .box ⟨t, f :: fs, r⟩
  | invoke {s fs r k} (ws : Bool) (hfs : OnHost fs) (hcall : Invoked A c th s k)
      (hroom : Above (regions A c fs) (Frame.region A c ⟨.invoke, s, k, false⟩).hi) :
      Step ⟨s, fs, r⟩ (.invoke ws)
        ⟨A.lfiTrampoline ws s, ⟨.invoke, s, k, false⟩ :: markDirty fs, r⟩
  | ret {s f fs r} (hf : f.kind = .invoke) :
      Step ⟨s, f :: fs, r⟩ .ret ⟨A.lfiRet s, fs, r⟩
  | callback {s f fs r k} (ws : Bool) (hf : f.kind.entersBox)
      (hsp : A.hostSp c s = hostStack th k) :
      Step ⟨s, f :: fs, r⟩ (.callback ws)
        ⟨A.lfiCallback ws s, ⟨.callback ws, s, k, false⟩ :: f :: fs, r⟩
  | callbackEnd {s f fs r} (ws : Bool) (hf : f.kind = .callback ws)
      (hsp : A.sp s = hostStack th (f.lo A + A.retPop))
      (hkept : A.kept s = A.kept (A.lfiCallback ws f.entry)) (habort : ¬A.Aborted c s) :
      Step ⟨s, f :: fs, r⟩ .callbackEnd ⟨A.lfiCallbackEnd ws s, fs, r⟩
  | abort {s f g fs r} (ws : Bool) (hf : f.kind = .callback ws) (hg : g.kind = .invoke)
      (hsp : A.sp s = hostStack th (f.lo A + A.retPop))
      (hkept : A.kept s = A.kept (A.lfiCallback ws f.entry)) (habort : A.Aborted c s) :
      Step ⟨s, f :: g :: fs, r⟩ .abort ⟨A.lfiCallbackEnd ws s, fs, r⟩
  | syscall {s f fs r k} (hf : f.kind.entersBox) (hsp : A.hostSp c s = hostStack th k) :
      Step ⟨s, f :: fs, r⟩ .syscall
        ⟨A.lfiSyscallEntry s, ⟨.syscall, s, k, false⟩ :: f :: fs, r⟩
  | syscallEnd {s f fs r} (hf : f.kind = .syscall)
      (hsp : A.sp s = hostStack th (f.lo A + A.retPop))
      (hkept : A.kept s = A.kept (A.lfiSyscallEntry f.entry)) :
      Step ⟨s, f :: fs, r⟩ .syscallEnd ⟨A.lfiSyscallEnd s, fs, r⟩
  | run {s fs r k} (hfs : OnHost fs) (hcall : Started A c th s k)
      (hroom : Above (regions A c fs) (Frame.region A c ⟨.run, s, k, false⟩).hi) :
      Step ⟨s, fs, r⟩ .run
        ⟨A.lfiCtxEntry s, ⟨.run, s, k, false⟩ :: markDirty fs, true⟩
  | exit {s f g fs} (hf : f.kind.entersBox = false) (hg : g.kind = .run)
      (harg : A.arg0 s = .ptr (.ctx c) 0) :
      Step ⟨s, f :: g :: fs, true⟩ .exit ⟨A.lfiCtxEnd s, fs, false⟩

/-- A frame and the ones it was pushed on. -/
def FrameOk (f : Frame S) (fs : List (Frame S)) : Prop :=
  match f.kind with
  | .invoke => (∀ g ∈ fs.head?, (∃ ws, g.kind = .callback ws) ∧ g.dirty = true) ∧
      Invoked A c th f.entry f.base
  | .run => (∀ g ∈ fs.head?, (∃ ws, g.kind = .callback ws) ∧ g.dirty = true) ∧
      Started A c th f.entry f.base
  | .callback _ | .syscall =>
      InBox A c th f.entry ∧ A.hostSp c f.entry = hostStack th f.base ∧
        ∃ g gs, fs = g :: gs ∧ g.kind.entersBox ∧ f.base = g.lo A

def Chain : List (Frame S) → Prop
  | [] => True
  | f :: fs => FrameOk A c th f fs ∧ Chain fs

/-- Where `host_sp` points while the innermost frame is `f`. -/
def TopOk (s : S) (f : Frame S) : Prop :=
  match f.kind with
  | .invoke | .run => InBox A c th s ∧ A.hostSp c s = hostStack th (f.lo A)
  | .callback _ => Attached A c th s ∧
      if f.dirty then ∃ j < f.lo A, A.hostSp c s = hostStack th j
      else A.hostSp c s = if A.swaps then A.sp f.entry else hostStack th f.base
  | .syscall => Attached A c th s ∧ f.dirty = false ∧ A.hostSp c s = hostStack th f.base

/-- The invariant of the runs. -/
structure Inv (cfg : Cfg S) : Prop where
  thread : A.thread cfg.state = th
  stacked : Stacked (A.mem cfg.state) (.stack th) (regions A c cfg.frames)
  chain : Chain A c th cfg.frames
  top : ∀ f ∈ cfg.frames.head?, TopOk A c th cfg.state f

/-- The condition on the steps: a runtime call handler does not enter the
sandbox, an aborted callback has not entered it unless the abort puts
`host_sp` right, and `lfi_ctx_exit` is called where `host_sp` was left alone. -/
def Careful (cfg : Cfg S) (l : Label) : Prop :=
  match l with
  | .invoke _ | .run => ∀ f ∈ cfg.frames.head?, f.kind ≠ .syscall
  | .abort => A.swaps = true ∨ ∀ f ∈ cfg.frames.head?, f.dirty = false
  | .exit => ∀ f ∈ cfg.frames.head?, f.kind = .syscall ∨ (A.swaps = false ∧ f.dirty = false)
  | _ => True

variable {A c th} {s t : S} {f g : Frame S} {fs : List (Frame S)} {r : Bool}

theorem regions_markDirty (fs : List (Frame S)) :
    regions A c (markDirty fs) = regions A c fs := by
  cases fs <;> rfl

theorem head_regions (h : f ∈ fs.head?) : f.region A c ∈ (regions A c fs).head? := by
  cases fs with
  | nil => cases h
  | cons g fs =>
      obtain rfl := Option.some.inj h
      rfl

theorem chain_markDirty (h : Chain A c th fs) : Chain A c th (markDirty fs) := by
  cases fs with
  | nil => exact h
  | cons f fs => exact h

theorem Frame.lo_lt_hi (hA : A.Lawful c th) (f : Frame S) (hf : f.kind.entersBox) :
    f.lo A < (f.region A c).hi := by
  have hpos := hA.size_pos f.kind
  have hle := hA.size_le f.kind f.entry hf
  simp only [Frame.region, Region.hi]
  omega

theorem BoxCode.inBox (hA : A.Lawful c th) (h : BoxCode A c s t) (hs : InBox A c th s) :
    InBox A c th t := by
  have hcell : ∀ p ∈ A.links c ++ A.bound th c, A.mem t p.1 = A.mem s p.1 := by
    intro p hp
    obtain ⟨b, o, heq, hout⟩ := hA.linkCells p hp
    rw [heq, h.mem b o hout]
  refine ⟨⟨?_, ?_, ?_, ?_⟩, ?_, h.boxSp⟩
  · rw [h.thread, hs.thread]
  · intro p hp
    rw [hcell p (List.mem_append_left _ hp), hs.linked p hp]
  · intro p hp
    rw [hcell p (List.mem_append_right _ hp), hs.bound p hp]
  · obtain ⟨n, hn⟩ := hs.saved
    exact ⟨n, (h.mem _ _ (by simp)).trans hn⟩
  · rw [h.ctxReg, hs.ctxReg]

theorem topOk_of_entersBox (hf : f.kind.entersBox) :
    TopOk A c th s f ↔ InBox A c th s ∧ A.hostSp c s = hostStack th (f.lo A) := by
  unfold TopOk
  cases hk : f.kind <;> simp_all [Kind.entersBox]

/-- The new configuration of a transition out of the sandbox. -/
theorem Inv.leave (hA : A.Lawful c th) (h : Inv A c th ⟨s, f :: fs, r⟩) (hf : f.kind.entersBox)
    {kind : Kind} (hkind : kind.entersBox = false)
    (hpush : Pushed A c th kind (f.lo A) s t) :
    let g : Frame S := ⟨kind, s, f.lo A, false⟩
    Stacked (A.mem t) (.stack th) (regions A c (g :: f :: fs)) ∧
      Chain A c th (g :: f :: fs) := by
  have htop := (topOk_of_entersBox hf).mp (h.top f rfl)
  have hle := hA.le_size kind s (by simp [hkind])
  have hpos := hA.size_pos kind
  constructor
  · apply h.stacked.push (k := f.lo A)
    · rintro _ ⟨⟩
      simp only [Frame.region, Region.hi, Frame.lo]
      omega
    · rintro _ ⟨⟩
      exact le_refl _
    · exact hpush.frame
    · exact hpush.same
  · refine ⟨?_, h.chain⟩
    unfold FrameOk
    cases kind with
    | invoke => cases hkind
    | run => cases hkind
    | callback ws => exact ⟨htop.1, htop.2, f, fs, rfl, hf, rfl⟩
    | syscall => exact ⟨htop.1, htop.2, f, fs, rfl, hf, rfl⟩

/-- A host function above the innermost frame returns. -/
theorem Inv.returning (h : Inv A c th ⟨s, f :: fs, r⟩) (hf : f.kind.entersBox = false)
    {enter : S → S} (hsp : A.sp s = hostStack th (f.lo A + A.retPop))
    (hkept : A.kept s = A.kept (enter f.entry)) :
    Returning A c th f.kind f.entry f.base enter s := by
  have hchain : FrameOk A c th f fs := h.chain.1
  have htop : TopOk A c th s f := h.top f rfl
  have hframe := h.stacked.holds
  unfold FrameOk at hchain
  unfold TopOk at htop
  cases hk : f.kind with
  | invoke => simp [hk, Kind.entersBox] at hf
  | run => simp [hk, Kind.entersBox] at hf
  | callback ws =>
      rw [hk] at hchain htop
      simp only [Frame.region, Frame.lo, hk] at hframe hsp
      exact ⟨hchain.1, hchain.2.1, htop.1, hsp, hkept, hframe⟩
  | syscall =>
      rw [hk] at hchain htop
      simp only [Frame.region, Frame.lo, hk] at hframe hsp
      exact ⟨hchain.1, hchain.2.1, htop.1, hsp, hkept, hframe⟩

/-- The frame below a callback or a runtime call. -/
theorem Inv.below (h : Inv A c th ⟨s, f :: fs, r⟩) (hf : f.kind.entersBox = false) :
    ∃ g gs, fs = g :: gs ∧ g.kind.entersBox ∧ f.base = g.lo A := by
  have hchain : FrameOk A c th f fs := h.chain.1
  unfold FrameOk at hchain
  cases hk : f.kind with
  | invoke => simp [hk, Kind.entersBox] at hf
  | run => simp [hk, Kind.entersBox] at hf
  | callback ws =>
      rw [hk] at hchain
      exact hchain.2.2
  | syscall =>
      rw [hk] at hchain
      exact hchain.2.2

/-! What one step preserves. -/

theorem inv_host (h : Inv A c th ⟨s, fs, r⟩) (hfs : OnHost fs)
    (hcode : HostCode A c th fs s t) : Inv A c th ⟨t, fs, r⟩ := by
  refine ⟨hcode.thread.trans h.thread, h.stacked.congr hcode.stack, h.chain, ?_⟩
  intro f hf
  have hne : fs ≠ [] := by
    rintro rfl
    cases hf
  have htop : TopOk A c th s f := h.top f hf
  have hhost := hfs f hf
  unfold TopOk at htop ⊢
  cases hk : f.kind with
  | invoke => simp [hk, Kind.entersBox] at hhost
  | run => simp [hk, Kind.entersBox] at hhost
  | callback ws =>
      rw [hk] at htop
      exact ⟨hcode.attached hne htop.1, by simpa only [hcode.hostSp hne] using htop.2⟩
  | syscall =>
      rw [hk] at htop
      exact ⟨hcode.attached hne htop.1, htop.2.1, (hcode.hostSp hne).trans htop.2.2⟩

theorem inv_box (hA : A.Lawful c th) (h : Inv A c th ⟨s, f :: fs, r⟩) (hf : f.kind.entersBox)
    (hcode : BoxCode A c s t) : Inv A c th ⟨t, f :: fs, r⟩ := by
  have htop := (topOk_of_entersBox hf).mp (h.top f rfl)
  have hkept : Untouched (A.mem s) (A.mem t) (.stack th) (regions A c (f :: fs)) := by
    intro _ _ i _
    exact hcode.mem _ _ (by simp)
  refine ⟨hcode.thread.trans h.thread, h.stacked.congr hkept, h.chain, ?_⟩
  rintro _ ⟨⟩
  rw [topOk_of_entersBox hf]
  exact ⟨hcode.inBox hA htop.1, (hcode.mem _ _ (by simp)).trans htop.2⟩

/-- The transitions into the sandbox. -/
theorem inv_enter (hA : A.Lawful c th) (h : Inv A c th ⟨s, fs, r⟩) {kind : Kind} {k : Int}
    (hkind : kind.entersBox) (hpush : Pushed A c th kind k s t)
    (hroom : Above (regions A c fs) (Frame.region A c ⟨kind, s, k, false⟩).hi)
    (hok : FrameOk A c th ⟨kind, s, k, false⟩ (markDirty fs))
    (hbox : InBox A c th t) (hhostSp : A.hostSp c t = hostStack th (k - A.size kind))
    (r' : Bool) : Inv A c th ⟨t, ⟨kind, s, k, false⟩ :: markDirty fs, r'⟩ := by
  have hsize := hA.size_le kind s hkind
  have hk : k ≤ (Frame.region A c ⟨kind, s, k, false⟩).hi := by
    simp only [Frame.region, Region.hi, Frame.lo]
    omega
  refine ⟨hbox.thread, ?_, ⟨hok, chain_markDirty h.chain⟩, ?_⟩
  · change Stacked _ _ (_ :: regions A c (markDirty fs))
    rw [regions_markDirty]
    exact h.stacked.push hroom (hroom.mono hk) hpush.frame hpush.same
  · rintro _ ⟨⟩
    rw [topOk_of_entersBox hkind]
    exact ⟨hbox, hhostSp⟩

/-- The frames below an entry of the sandbox that a callback makes. -/
theorem dirty_markDirty (hfs : OnHost fs) (hsys : ∀ f ∈ fs.head?, f.kind ≠ .syscall) :
    ∀ g ∈ (markDirty fs).head?, (∃ ws, g.kind = .callback ws) ∧ g.dirty = true := by
  cases fs with
  | nil => rintro _ ⟨⟩
  | cons f fs =>
      rintro _ ⟨⟩
      have hhost := hfs f rfl
      have hnot := hsys f rfl
      cases hk : f.kind with
      | invoke => simp [hk, Kind.entersBox] at hhost
      | run => simp [hk, Kind.entersBox] at hhost
      | callback ws => exact ⟨⟨ws, rfl⟩, rfl⟩
      | syscall => exact absurd hk hnot

/-- Back in the host code that entered the sandbox with frame `f`. -/
theorem inv_back (hA : A.Lawful c th) (hf : f.kind.entersBox)
    (hstacked : Stacked (A.mem s) (.stack th) (regions A c (f :: fs)))
    (hchain : Chain A c th (f :: fs)) (hatt : Attached A c th t)
    (hhostSp : A.hostSp c t = hostStack th (f.lo A)) (hsame : A.SameFrom th (f.lo A) s t)
    (r : Bool) : Inv A c th ⟨t, fs, r⟩ := by
  have habove : Above (regions A c fs) (f.lo A) :=
    Above.mono hstacked.above (f.region A c).lo_le_hi
  refine ⟨hatt.thread, hstacked.pop.congr (untouched_of_above habove hsame), hchain.2, ?_⟩
  intro g hg
  obtain ⟨hchain, -⟩ := hchain
  have hdirty : (∃ ws, g.kind = .callback ws) ∧ g.dirty = true := by
    unfold FrameOk at hchain
    cases hk : f.kind with
    | invoke =>
        rw [hk] at hchain
        exact hchain.1 g hg
    | run =>
        rw [hk] at hchain
        exact hchain.1 g hg
    | callback ws => simp [hk, Kind.entersBox] at hf
    | syscall => simp [hk, Kind.entersBox] at hf
  obtain ⟨⟨ws, hws⟩, hmark⟩ := hdirty
  have hlt : f.lo A < g.lo A := by
    have hhi := f.lo_lt_hi (c := c) hA hf
    have hle := hstacked.above _ (head_regions hg)
    simp only [Frame.region] at hle hhi
    omega
  unfold TopOk
  rw [hws]
  refine ⟨hatt, ?_⟩
  rw [if_pos hmark]
  exact ⟨f.lo A, hlt, hhostSp⟩

theorem inv_callback (hA : A.Lawful c th) (h : Inv A c th ⟨s, f :: fs, r⟩)
    (hf : f.kind.entersBox) (ws : Bool) :
    Inv A c th ⟨A.lfiCallback ws s, ⟨.callback ws, s, f.lo A, false⟩ :: f :: fs, r⟩ := by
  obtain ⟨hbox, hhostSp⟩ := (topOk_of_entersBox hf).mp (h.top f rfl)
  obtain ⟨hatt, hpush, -, -, hswap⟩ := hA.callback ws s _ hbox hhostSp
  obtain ⟨hstacked, hchain⟩ := h.leave hA hf rfl hpush
  refine ⟨hatt.thread, hstacked, hchain, ?_⟩
  rintro _ ⟨⟩
  refine ⟨hatt, ?_⟩
  rw [hswap, hhostSp]
  rfl

theorem inv_syscall (hA : A.Lawful c th) (h : Inv A c th ⟨s, f :: fs, r⟩)
    (hf : f.kind.entersBox) :
    Inv A c th ⟨A.lfiSyscallEntry s, ⟨.syscall, s, f.lo A, false⟩ :: f :: fs, r⟩ := by
  obtain ⟨hbox, hhostSp⟩ := (topOk_of_entersBox hf).mp (h.top f rfl)
  obtain ⟨hatt, hpush, -, hsame⟩ := hA.syscall s _ hbox hhostSp
  obtain ⟨hstacked, hchain⟩ := h.leave hA hf rfl hpush
  refine ⟨hatt.thread, hstacked, hchain, ?_⟩
  rintro _ ⟨⟩
  exact ⟨hatt, rfl, hsame.trans hhostSp⟩

/-- Back in the sandbox from a host function. -/
theorem inv_resume (h : Inv A c th ⟨s, f :: fs, r⟩) (hf : f.kind.entersBox = false)
    (hbox : InBox A c th t) (hhostSp : A.hostSp c t = hostStack th f.base)
    (hsame : A.SameFrom th f.base s t) : Inv A c th ⟨t, fs, r⟩ := by
  obtain ⟨g, gs, rfl, hg, hbase⟩ := h.below hf
  have hkept : Untouched (A.mem s) (A.mem t) (.stack th) (regions A c (g :: gs)) := by
    rintro _ ⟨⟩ i hi
    rw [hbase] at hsame
    exact hsame i hi
  refine ⟨hbox.thread, h.stacked.pop.congr hkept, h.chain.2, ?_⟩
  rintro _ ⟨⟩
  rw [topOk_of_entersBox hg]
  exact ⟨hbox, by rw [hhostSp, hbase]⟩

theorem inv_callbackEnd (hA : A.Lawful c th) (h : Inv A c th ⟨s, f :: fs, r⟩) {ws : Bool}
    (hf : f.kind = .callback ws) (hsp : A.sp s = hostStack th (f.lo A + A.retPop))
    (hkept : A.kept s = A.kept (A.lfiCallback ws f.entry)) (habort : ¬A.Aborted c s) :
    Inv A c th ⟨A.lfiCallbackEnd ws s, fs, r⟩ := by
  have hhost : f.kind.entersBox = false := by
    rw [hf]
    rfl
  have hret := h.returning hhost hsp hkept
  rw [hf] at hret
  obtain ⟨hbox, -, -, -, hhostSp, hsame⟩ := hA.callbackEnd ws s _ _ hret habort
  exact inv_resume h hhost hbox hhostSp hsame

theorem inv_syscallEnd (hA : A.Lawful c th) (h : Inv A c th ⟨s, f :: fs, r⟩)
    (hf : f.kind = .syscall) (hsp : A.sp s = hostStack th (f.lo A + A.retPop))
    (hkept : A.kept s = A.kept (A.lfiSyscallEntry f.entry)) :
    Inv A c th ⟨A.lfiSyscallEnd s, fs, r⟩ := by
  have hhost : f.kind.entersBox = false := by
    rw [hf]
    rfl
  have hret := h.returning hhost hsp hkept
  rw [hf] at hret
  have htop : TopOk A c th s f := h.top f rfl
  unfold TopOk at htop
  rw [hf] at htop
  obtain ⟨hbox, hhostSp, hsame⟩ := hA.syscallEnd s _ _ hret
  exact inv_resume h hhost hbox (hhostSp.trans htop.2.2) hsame

/-- An invocation returns as it was entered. -/
theorem Inv.ret (hA : A.Lawful c th) (h : Inv A c th ⟨s, f :: fs, r⟩) (hf : f.kind = .invoke) :
    Attached A c th (A.lfiRet s) ∧ Returns A f.entry (A.lfiRet s) ∧
      A.savedSp c (A.lfiRet s) = A.savedSp c f.entry ∧
      A.hostSp c (A.lfiRet s) = hostStack th (f.lo A) ∧
      A.SameFrom th (f.lo A) s (A.lfiRet s) := by
  have hbox : f.kind.entersBox = true := by
    rw [hf]
    rfl
  obtain ⟨hin, hhostSp⟩ := (topOk_of_entersBox hbox).mp (h.top f rfl)
  have hchain : FrameOk A c th f fs := h.chain.1
  have hframe := h.stacked.holds
  unfold FrameOk at hchain
  rw [hf] at hchain
  have hlo : f.lo A = f.base - A.size .invoke := by
    rw [Frame.lo, hf]
  simp only [Frame.region, hf, hlo] at hframe
  obtain ⟨hatt, hreturns, hsaved, hsame, hstack⟩ :=
    hA.ret s f.entry f.base hin hchain.2 (by rw [hhostSp, hlo]) hframe
  exact ⟨hatt, hreturns, hsaved, hsame.trans hhostSp, hlo ▸ hstack⟩

/-- An aborted callback returns from the invocation it was made from. -/
theorem Inv.abort (hA : A.Lawful c th) (h : Inv A c th ⟨s, f :: g :: fs, r⟩) {ws : Bool}
    (hf : f.kind = .callback ws) (hg : g.kind = .invoke)
    (hsp : A.sp s = hostStack th (f.lo A + A.retPop))
    (hkept : A.kept s = A.kept (A.lfiCallback ws f.entry)) (habort : A.Aborted c s)
    (hclean : A.swaps = false → A.hostSp c s = hostStack th (g.lo A)) :
    let t := A.lfiCallbackEnd ws s
    Attached A c th t ∧ Returns A g.entry t ∧ A.savedSp c t = A.savedSp c g.entry ∧
      A.hostSp c t = hostStack th (g.lo A) ∧ A.SameFrom th (g.lo A) s t ∧
      A.mem t (.ptr (.ctx c) A.abortCell) = .int 0#64 := by
  have hhost : f.kind.entersBox = false := by
    rw [hf]
    rfl
  have hret := h.returning hhost hsp hkept
  rw [hf] at hret
  obtain ⟨_, _, heq, -, hbase⟩ := h.below hhost
  obtain ⟨rfl, rfl⟩ := List.cons.inj heq
  have hchain : FrameOk A c th g fs := h.chain.2.1
  have hframe := h.stacked.pop.holds
  unfold FrameOk at hchain
  rw [hg] at hchain
  have hlo : g.lo A = g.base - A.size .invoke := by
    rw [Frame.lo, hg]
  simp only [Frame.region, hg] at hframe
  have hout := hA.abort ws s f.entry f.base g.entry g.base hret habort hchain.2
    (hbase.trans hlo)
  rw [hbase] at hout
  exact hout hframe hclean

/-- `lfi_ctx_exit` above a run whose frame `host_sp` points to. -/
theorem Inv.exit (hA : A.Lawful c th) (h : Inv A c th ⟨s, f :: g :: fs, r⟩)
    (hg : g.kind = .run) (harg : A.arg0 s = .ptr (.ctx c) 0) (hatt : Attached A c th s)
    (hhostSp : A.hostSp c s = hostStack th (g.lo A)) :
    Attached A c th (A.lfiCtxEnd s) ∧ Returns A g.entry (A.lfiCtxEnd s) ∧
      A.hostSp c (A.lfiCtxEnd s) = hostStack th (g.lo A) ∧
      A.SameFrom th (g.lo A) s (A.lfiCtxEnd s) := by
  have hchain : FrameOk A c th g fs := h.chain.2.1
  have hframe := h.stacked.pop.holds
  unfold FrameOk at hchain
  rw [hg] at hchain
  have hlo : g.lo A = g.base - A.size .run := by
    rw [Frame.lo, hg]
  simp only [Frame.region, hg, hlo] at hframe
  obtain ⟨hatt', hreturns, hsame, hstack⟩ :=
    hA.exit s g.entry g.base hatt harg hchain.2 (by rw [hhostSp, hlo]) hframe
  exact ⟨hatt', hreturns, hsame.trans hhostSp, hlo ▸ hstack⟩

/-- Where `host_sp` points in host code that has left it alone. -/
theorem Inv.hostSp_clean (h : Inv A c th ⟨s, f :: g :: fs, r⟩) (hf : f.kind.entersBox = false)
    (hclean : f.kind = .syscall ∨ (A.swaps = false ∧ f.dirty = false)) :
    Attached A c th s ∧ A.hostSp c s = hostStack th (g.lo A) := by
  obtain ⟨_, _, heq, -, hbase⟩ := h.below hf
  obtain ⟨rfl, rfl⟩ := List.cons.inj heq
  have htop : TopOk A c th s f := h.top f rfl
  unfold TopOk at htop
  cases hk : f.kind with
  | invoke => simp [hk, Kind.entersBox] at hf
  | run => simp [hk, Kind.entersBox] at hf
  | callback ws =>
      rw [hk] at htop hclean
      obtain ⟨hswaps, hdirty⟩ := hclean.resolve_left (by simp)
      simp only [hdirty, hswaps, Bool.false_eq_true, if_false] at htop
      exact ⟨htop.1, by rw [htop.2, hbase]⟩
  | syscall =>
      rw [hk] at htop
      exact ⟨htop.1, by rw [htop.2.2, hbase]⟩

/-- Where an aborted callback finds `host_sp` when it has made no invocation. -/
theorem Inv.hostSp_abort (h : Inv A c th ⟨s, f :: g :: fs, r⟩) {ws : Bool}
    (hf : f.kind = .callback ws) (hclean : A.swaps = true ∨ f.dirty = false) :
    A.swaps = false → A.hostSp c s = hostStack th (g.lo A) := by
  intro hswaps
  have hdirty := hclean.resolve_left (by simp [hswaps])
  have hhost : f.kind.entersBox = false := by
    rw [hf]
    rfl
  exact (h.hostSp_clean hhost (.inr ⟨hswaps, hdirty⟩)).2

theorem inv_step (hA : A.Lawful c th) {cfg cfg' : Cfg S} {l : Label} (h : Inv A c th cfg)
    (hok : Careful A cfg l) (hstep : Step A c th cfg l cfg') : Inv A c th cfg' := by
  cases hstep with
  | host hfs hcode => exact inv_host h hfs hcode
  | box hf hcode => exact inv_box hA h hf hcode
  | invoke ws hfs hcall hroom =>
      obtain ⟨hbox, hpush, hhostSp⟩ := hA.invoke ws _ _ hcall
      exact inv_enter hA h rfl hpush hroom ⟨dirty_markDirty hfs hok, hcall⟩ hbox hhostSp _
  | ret hf =>
      obtain ⟨hatt, -, -, hhostSp, hsame⟩ := h.ret hA hf
      exact inv_back hA (by rw [hf]; rfl) h.stacked h.chain hatt hhostSp hsame _
  | callback ws hf hsp =>
      have htop := (topOk_of_entersBox hf).mp (h.top _ rfl)
      obtain ⟨-, rfl⟩ := Word.ptr.inj (hsp.symm.trans htop.2)
      exact inv_callback hA h hf ws
  | callbackEnd ws hf hsp hkept habort => exact inv_callbackEnd hA h hf hsp hkept habort
  | abort ws hf hg hsp hkept habort =>
      have hclean : A.swaps = true ∨ _ := hok.imp id fun h => h _ rfl
      obtain ⟨hatt, -, -, hhostSp, hsame, -⟩ :=
        h.abort hA hf hg hsp hkept habort (h.hostSp_abort hf hclean)
      exact inv_back hA (by rw [hg]; rfl) h.stacked.pop h.chain.2 hatt hhostSp hsame _
  | syscall hf hsp =>
      have htop := (topOk_of_entersBox hf).mp (h.top _ rfl)
      obtain ⟨-, rfl⟩ := Word.ptr.inj (hsp.symm.trans htop.2)
      exact inv_syscall hA h hf
  | syscallEnd hf hsp hkept => exact inv_syscallEnd hA h hf hsp hkept
  | run hfs hcall hroom =>
      obtain ⟨hbox, hpush, hhostSp⟩ := hA.run _ _ hcall
      exact inv_enter hA h rfl hpush hroom ⟨dirty_markDirty hfs hok, hcall⟩ hbox hhostSp _
  | exit hf hg harg =>
      obtain ⟨hatt, hhostSp⟩ := h.hostSp_clean hf (hok _ rfl)
      obtain ⟨hatt', -, hhostSp', hsame⟩ := h.exit hA hg harg hatt hhostSp
      exact inv_back hA (by rw [hg]; rfl) h.stacked.pop h.chain.2 hatt' hhostSp' hsame _

/-- The invariant of every run whose steps are careful. -/
theorem inv_of_reaches (hA : A.Lawful c th) {cfg cfg' : Cfg S} (h : Inv A c th cfg)
    (hrun : Reaches (Step A c th) (Careful A) cfg cfg') : Inv A c th cfg' :=
  hrun.invariant h fun _ _ _ hinv hok hstep => inv_step hA hinv hok hstep

/-- Host code with nothing of the context on its stack. -/
theorem inv_start (hthread : A.thread s = th) : Inv A c th ⟨s, [], r⟩ := by
  refine ⟨hthread, trivial, trivial, ?_⟩
  rintro _ ⟨⟩

end LfiRuntime.Transitions
